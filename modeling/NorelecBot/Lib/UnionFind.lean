import Mathlib.Logic.Relation
import Mathlib.Data.Finset.Card
import Mathlib.Data.Finset.Range
import Mathlib.Data.List.Basic
import Mathlib.Data.List.Infix
import Mathlib.Data.List.Range
import Mathlib.Data.List.Induction

/-! # Union-find with path halving

Each element points at a parent, and a root at itself. Looking a root up halves the
way to it for the next time. What the parents stand for is which root each element
has: halving leaves that alone, and a union sends one class to the root of another.
-/

namespace NorelecBot.Lib.UnionFind

section Classes
variable {ι : Type*} [DecidableEq ι]

/-- The representatives once the class of `a` is sent to that of `b`. -/
def joined (rep : ι → ι) (a b : ι) : ι → ι := fun i => if rep i = rep a then rep b else rep i

def joinedAll (rep : ι → ι) (pairs : List (ι × ι)) : ι → ι := pairs.foldl (fun rep pair => joined rep pair.1 pair.2) rep

/-- Joined by a chain of pairs, taken either way. -/
abbrev Connected (pairs : List (ι × ι)) : ι → ι → Prop := Relation.EqvGen fun i j => (i, j) ∈ pairs

theorem joined_eq_left (rep : ι → ι) (a b : ι) : joined rep a b a = rep b := if_pos rfl

theorem joined_eq_right (rep : ι → ι) (a b : ι) : joined rep a b b = rep b := by
  rw [joined]
  by_cases h : rep b = rep a
  · rw [if_pos h]
  · rw [if_neg h]

theorem joined_congr {rep : ι → ι} {i j : ι} (h : rep i = rep j) (a b : ι) : joined rep a b i = joined rep a b j := by
  rw [joined, joined, h]

omit [DecidableEq ι] in
theorem Connected.mono {pairs more : List (ι × ι)} (hsub : pairs ⊆ more) {i j : ι} (h : Connected pairs i j) :
    Connected more i j :=
  Relation.EqvGen.mono (fun _ _ hmem => hsub hmem) i j h

/-- The classes are the components: two elements have one representative when the pairs join them. -/
theorem joinedAll_iff (pairs : List (ι × ι)) (i j : ι) :
    joinedAll id pairs i = joinedAll id pairs j ↔ Connected pairs i j := by
  induction pairs using List.reverseRecOn generalizing i j with
  | nil =>
    constructor
    · rintro rfl
      exact .refl _
    · intro h
      induction h with
      | rel _ _ hmem => cases hmem
      | refl _ => rfl
      | symm _ _ _ ih => exact ih.symm
      | trans _ _ _ _ _ ih ih' => exact ih.trans ih'
  | append_singleton pairs pair ih =>
    have hlast : joinedAll id (pairs ++ [pair]) = joined (joinedAll id pairs) pair.1 pair.2 := by
      rw [joinedAll, List.foldl_append]
      rfl
    have hnew : Connected (pairs ++ [pair]) pair.1 pair.2 := .rel _ _ (by simp)
    have hold : ∀ {x y}, joinedAll id pairs x = joinedAll id pairs y → Connected (pairs ++ [pair]) x y :=
      fun h => Connected.mono (List.subset_append_left pairs [pair]) ((ih _ _).mp h)
    rw [hlast]
    constructor
    · intro h
      rw [joined, joined] at h
      by_cases hi : joinedAll id pairs i = joinedAll id pairs pair.1
      · by_cases hj : joinedAll id pairs j = joinedAll id pairs pair.1
        · exact hold (hi.trans hj.symm)
        · rw [if_pos hi, if_neg hj] at h
          exact .trans _ _ _ (hold hi) (.trans _ _ _ hnew (hold h))
      · by_cases hj : joinedAll id pairs j = joinedAll id pairs pair.1
        · rw [if_neg hi, if_pos hj] at h
          exact .trans _ _ _ (hold h) (.trans _ _ _ (.symm _ _ hnew) (.symm _ _ (hold hj)))
        · rw [if_neg hi, if_neg hj] at h
          exact hold h
    · intro h
      induction h with
      | rel x y hmem =>
        rcases List.mem_append.mp hmem with hmem | hmem
        · exact joined_congr ((ih x y).mpr (.rel _ _ hmem)) _ _
        · cases List.mem_singleton.mp hmem
          rw [joined_eq_left, joined_eq_right]
      | refl _ => rfl
      | symm _ _ _ ih => exact ih.symm
      | trans _ _ _ _ _ ih ih' => exact ih.trans ih'

end Classes

def parentAt (parents : List ℕ) (i : ℕ) : ℕ := parents.getD i i

/-- Up to the root, each element passed on the way pointed at the one after the next. -/
def rootWithin : ℕ → List ℕ → ℕ → ℕ × List ℕ
  | 0, parents, i => (i, parents)
  | fuel + 1, parents, i =>
    if parentAt parents i = i then (i, parents)
    else
      let up := parentAt parents (parentAt parents i)
      rootWithin fuel (parents.set i up) up

/-- The root of an element, and the parents once it was looked up. No way is longer than there are elements. -/
def root (parents : List ℕ) (i : ℕ) : ℕ × List ℕ := rootWithin parents.length parents i

/-- The root of `a` under the root of `b`, which is looked up first. -/
def unite (parents : List ℕ) (a b : ℕ) : List ℕ :=
  let (below, parents) := root parents b
  let (above, parents) := root parents a
  parents.set above below

/-- Nobody is above himself, and who has which root. -/
structure Forest (parents : List ℕ) (rep : ℕ → ℕ) : Prop where
  inside : ∀ i < parents.length, parentAt parents i < parents.length
  falls : ∃ level : ℕ → ℕ, ∀ i, parentAt parents i ≠ i → level (parentAt parents i) < level i
  climbs : ∀ i, rep (parentAt parents i) = rep i
  top : ∀ i, parentAt parents (rep i) = rep i
  own : ∀ i, parentAt parents i = i → rep i = i

theorem parentAt_of_le {parents : List ℕ} {i : ℕ} (h : parents.length ≤ i) : parentAt parents i = i := by
  rw [parentAt, List.getD_eq_getElem?_getD, List.getElem?_eq_none h, Option.getD_none]

theorem parentAt_set {parents : List ℕ} {i : ℕ} (hi : i < parents.length) (up j : ℕ) :
    parentAt (parents.set i up) j = if j = i then up else parentAt parents j := by
  rw [parentAt, parentAt, List.getD_eq_getElem?_getD, List.getD_eq_getElem?_getD, List.getElem?_set]
  by_cases h : i = j
  · rw [if_pos h, if_pos hi, if_pos h.symm, Option.getD_some]
  · rw [if_neg h, if_neg (Ne.symm h)]

theorem lt_length_of_parentAt_ne {parents : List ℕ} {i : ℕ} (h : parentAt parents i ≠ i) : i < parents.length := by
  by_contra hout
  exact h (parentAt_of_le (by omega))

theorem parentAt_range (n i : ℕ) : parentAt (List.range n) i = i := by
  rw [parentAt, List.getD_eq_getElem?_getD]
  by_cases hi : i < n
  · rw [List.getElem?_range hi, Option.getD_some]
  · rw [List.getElem?_eq_none (by rw [List.length_range]; omega), Option.getD_none]

/-- Everybody his own root. -/
theorem forest_range (n : ℕ) : Forest (List.range n) id where
  inside i hi := by rwa [parentAt_range]
  falls := ⟨id, fun i hne => absurd (parentAt_range n i) hne⟩
  climbs i := parentAt_range n i
  top i := parentAt_range n i
  own _ _ := rfl

namespace Forest
variable {parents : List ℕ} {rep : ℕ → ℕ}

theorem rep_lt (h : Forest parents rep) {i : ℕ} (hi : i < parents.length) : rep i < parents.length := by
  obtain ⟨level, hfalls⟩ := h.falls
  induction hlevel : level i using Nat.strong_induction_on generalizing i with
  | _ value ih =>
    by_cases hroot : parentAt parents i = i
    · rwa [h.own i hroot]
    · rw [← h.climbs i]
      exact ih _ (hlevel ▸ hfalls i hroot) (h.inside i hi) rfl

/-- Levels can be counted from below, so that no more are needed than there are elements. -/
theorem exists_level (h : Forest parents rep) :
    ∃ level : ℕ → ℕ, (∀ i < parents.length, level i < parents.length) ∧
      ∀ i, parentAt parents i ≠ i → level (parentAt parents i) < level i := by
  obtain ⟨level, hfalls⟩ := h.falls
  refine ⟨fun i => ((Finset.range parents.length).filter fun j => level j < level i).card, ?_, ?_⟩
  · intro i hi
    have hlt : ((Finset.range parents.length).filter fun j => level j < level i).card < (Finset.range parents.length).card := by
      apply Finset.card_lt_card
      rw [Finset.filter_ssubset]
      exact ⟨i, Finset.mem_range.mpr hi, lt_irrefl _⟩
    rwa [Finset.card_range] at hlt
  · intro i hne
    have hi := lt_length_of_parentAt_ne hne
    have hlt := hfalls i hne
    apply Finset.card_lt_card
    rw [Finset.ssubset_iff_of_subset]
    · refine ⟨parentAt parents i, ?_, ?_⟩
      · simpa [h.inside i hi] using hlt
      · simp
    · intro j hj
      rw [Finset.mem_filter] at hj ⊢
      exact ⟨hj.1, lt_trans hj.2 hlt⟩

/-- One step of a lookup leaves every root where it was. -/
theorem halve (h : Forest parents rep) {i : ℕ} (hne : parentAt parents i ≠ i) :
    Forest (parents.set i (parentAt parents (parentAt parents i))) rep := by
  have hi := lt_length_of_parentAt_ne hne
  have hset := parentAt_set hi (parentAt parents (parentAt parents i))
  obtain ⟨level, hfalls⟩ := h.falls
  have hle : ∀ j, level (parentAt parents j) ≤ level j := by
    intro j
    by_cases hj : parentAt parents j = j
    · rw [hj]
    · exact le_of_lt (hfalls j hj)
  constructor
  · intro j hj
    rw [List.length_set] at hj ⊢
    rw [hset]
    by_cases hji : j = i
    · rw [if_pos hji]
      exact h.inside _ (h.inside i hi)
    · rw [if_neg hji]
      exact h.inside j hj
  · refine ⟨level, fun j hj => ?_⟩
    rw [hset] at hj ⊢
    by_cases hji : j = i
    · rw [if_pos hji, hji]
      exact lt_of_le_of_lt (hle _) (hfalls i hne)
    · rw [if_neg hji] at hj ⊢
      exact hfalls j hj
  · intro j
    rw [hset]
    by_cases hji : j = i
    · rw [if_pos hji, h.climbs, h.climbs, hji]
    · rw [if_neg hji, h.climbs]
  · intro j
    rw [hset]
    by_cases hji : rep j = i
    · exact absurd (hji ▸ h.top j) hne
    · rw [if_neg hji, h.top]
  · intro j hj
    rw [hset] at hj
    by_cases hji : j = i
    · rw [if_pos hji, hji] at hj
      have hup := lt_of_le_of_lt (hle (parentAt parents i)) (hfalls i hne)
      rw [hj] at hup
      omega
    · rw [if_neg hji] at hj
      exact h.own j hj

/-- A lookup ends at the root within as many steps as the element has levels under it. -/
theorem rootWithin_spec (h : Forest parents rep) {level : ℕ → ℕ}
    (hfalls : ∀ i, parentAt parents i ≠ i → level (parentAt parents i) < level i) {fuel i : ℕ} (hfuel : level i ≤ fuel) :
    (rootWithin fuel parents i).1 = rep i ∧ Forest (rootWithin fuel parents i).2 rep ∧
      (rootWithin fuel parents i).2.length = parents.length ∧
      ∀ more, rootWithin (fuel + more) parents i = rootWithin fuel parents i := by
  induction fuel generalizing parents i with
  | zero =>
    have hroot : parentAt parents i = i := by
      by_contra hne
      have hlt := hfalls i hne
      omega
    refine ⟨(h.own i hroot).symm, h, rfl, ?_⟩
    intro more
    cases more with
    | zero => rfl
    | succ more =>
      rw [Nat.zero_add, rootWithin, rootWithin, if_pos hroot]
  | succ fuel ih =>
    rw [rootWithin]
    by_cases hroot : parentAt parents i = i
    · rw [if_pos hroot]
      refine ⟨(h.own i hroot).symm, h, rfl, ?_⟩
      intro more
      rw [show fuel + 1 + more = fuel + more + 1 by omega, rootWithin, if_pos hroot]
    · rw [if_neg hroot]
      have hi := lt_length_of_parentAt_ne hroot
      have hle : level (parentAt parents (parentAt parents i)) ≤ level (parentAt parents i) := by
        by_cases hup : parentAt parents (parentAt parents i) = parentAt parents i
        · rw [hup]
        · exact le_of_lt (hfalls _ hup)
      have hlt := hfalls i hroot
      have hfalls' : ∀ j, parentAt (parents.set i (parentAt parents (parentAt parents i))) j ≠ j →
          level (parentAt (parents.set i (parentAt parents (parentAt parents i))) j) < level j := by
        intro j hj
        rw [parentAt_set hi] at hj ⊢
        by_cases hji : j = i
        · rw [if_pos hji, hji]
          omega
        · rw [if_neg hji] at hj ⊢
          exact hfalls j hj
      obtain ⟨hrep, hforest, hlength, hmore⟩ := ih (i := parentAt parents (parentAt parents i)) (h.halve hroot) hfalls' (by omega)
      refine ⟨?_, hforest, ?_, ?_⟩
      · exact hrep.trans ((h.climbs _).trans (h.climbs i))
      · exact hlength.trans List.length_set
      · intro more
        rw [show fuel + 1 + more = fuel + more + 1 by omega, rootWithin, if_neg hroot]
        exact hmore more

theorem root_spec (h : Forest parents rep) {i : ℕ} (hi : i < parents.length) :
    (root parents i).1 = rep i ∧ Forest (root parents i).2 rep ∧ (root parents i).2.length = parents.length := by
  obtain ⟨level, hlevel, hfalls⟩ := h.exists_level
  obtain ⟨hrep, hforest, hlength, -⟩ := h.rootWithin_spec hfalls (le_of_lt (hlevel i hi))
  exact ⟨hrep, hforest, hlength⟩

/-- More steps than there are elements change nothing. -/
theorem rootWithin_enough (h : Forest parents rep) {i fuel : ℕ} (hi : i < parents.length) (hfuel : parents.length ≤ fuel) :
    rootWithin fuel parents i = root parents i := by
  obtain ⟨level, hlevel, hfalls⟩ := h.exists_level
  obtain ⟨-, -, -, hmore⟩ := h.rootWithin_spec hfalls (le_of_lt (hlevel i hi))
  obtain ⟨more, rfl⟩ := Nat.exists_eq_add_of_le hfuel
  exact hmore more

/-- One root under another: the second stands lowest, and everybody else one level higher. -/
theorem link (h : Forest parents rep) {a b : ℕ} (ha : a < parents.length) (hb : b < parents.length)
    (hroot : parentAt parents a = a) (hroot' : parentAt parents b = b) : Forest (parents.set a b) (joined rep a b) := by
  have hset := parentAt_set ha b
  have hrepa := h.own a hroot
  have hrepb := h.own b hroot'
  obtain ⟨level, hfalls⟩ := h.falls
  constructor
  · intro j hj
    rw [List.length_set] at hj ⊢
    rw [hset]
    by_cases hja : j = a
    · rwa [if_pos hja]
    · rw [if_neg hja]
      exact h.inside j hj
  · refine ⟨fun j => if j = b then 0 else level j + 1, fun j hj => ?_⟩
    rw [hset] at hj ⊢
    beta_reduce
    by_cases hja : j = a
    · rw [if_pos hja] at hj ⊢
      rw [if_pos rfl, if_neg (Ne.symm hj)]
      omega
    · rw [if_neg hja] at hj ⊢
      have hjb : j ≠ b := by
        rintro rfl
        exact hj hroot'
      have hlt := hfalls j hj
      rw [if_neg hjb]
      by_cases hup : parentAt parents j = b
      · rw [if_pos hup]
        omega
      · rw [if_neg hup]
        omega
  · intro j
    rw [hset]
    by_cases hja : j = a
    · rw [if_pos hja, hja, joined_eq_left, joined_eq_right]
    · rw [if_neg hja]
      exact joined_congr (h.climbs j) a b
  · intro j
    rw [hset, joined, hrepa, hrepb]
    by_cases hj : rep j = a
    · rw [if_pos hj]
      by_cases hba : b = a
      · rw [if_pos hba]
      · rw [if_neg hba, hroot']
    · rw [if_neg hj, if_neg hj, h.top]
  · intro j hj
    rw [hset] at hj
    rw [joined, hrepa, hrepb]
    by_cases hja : j = a
    · rw [if_pos hja] at hj
      rw [hja, hrepa, if_pos rfl, hj, hja]
    · rw [if_neg hja] at hj
      rw [h.own j hj, if_neg hja]

theorem unite_spec (h : Forest parents rep) {a b : ℕ} (ha : a < parents.length) (hb : b < parents.length) :
    Forest (unite parents a b) (joined rep a b) ∧ (unite parents a b).length = parents.length := by
  obtain ⟨hbelow, hforest, hlength⟩ := h.root_spec hb
  obtain ⟨habove, hforest', hlength'⟩ := hforest.root_spec (hlength ▸ ha)
  have hlink := @link _ _ hforest' (rep a) (rep b) (by rw [hlength', hlength]; exact h.rep_lt ha)
    (by rw [hlength', hlength]; exact h.rep_lt hb) (hforest'.top a) (hforest'.top b)
  have hsame : joined rep (rep a) (rep b) = joined rep a b := by
    have hidem : ∀ i, rep (rep i) = rep i := fun i => h.own _ (h.top i)
    funext i
    rw [joined, joined, hidem, hidem]
  rw [hsame] at hlink
  rw [unite]
  dsimp only
  rw [hbelow, habove]
  exact ⟨hlink, by rw [List.length_set, hlength', hlength]⟩

end Forest

inductive Step where
  | lookUp (i : ℕ)
  | unite (a b : ℕ)

def Step.Inside (n : ℕ) : Step → Prop
  | .lookUp i => i < n
  | .unite a b => a < n ∧ b < n

def Step.run (parents : List ℕ) : Step → List ℕ
  | .lookUp i => (root parents i).2
  | .unite a b => UnionFind.unite parents a b

def runAll (parents : List ℕ) (steps : List Step) : List ℕ := steps.foldl Step.run parents

theorem Forest.run {parents : List ℕ} {rep : ℕ → ℕ} (h : Forest parents rep) {step : Step}
    (hstep : step.Inside parents.length) :
    (∃ rep', Forest (step.run parents) rep') ∧ (step.run parents).length = parents.length := by
  cases step with
  | lookUp i =>
    have hroot := h.root_spec hstep
    exact ⟨⟨rep, hroot.2.1⟩, hroot.2.2⟩
  | unite a b =>
    have hunite := h.unite_spec hstep.1 hstep.2
    exact ⟨⟨joined rep a b, hunite.1⟩, hunite.2⟩

theorem Forest.runAll {parents : List ℕ} {rep : ℕ → ℕ} (h : Forest parents rep) {steps : List Step}
    (hsteps : ∀ step ∈ steps, step.Inside parents.length) :
    (∃ rep', Forest (UnionFind.runAll parents steps) rep') ∧
      (UnionFind.runAll parents steps).length = parents.length := by
  induction steps generalizing parents rep with
  | nil => exact ⟨⟨rep, h⟩, rfl⟩
  | cons step steps ih =>
    obtain ⟨⟨rep', hstep⟩, hlength⟩ := h.run (hsteps step List.mem_cons_self)
    have hrest := ih hstep fun other hother => by
      rw [hlength]
      exact hsteps other (List.mem_cons_of_mem step hother)
    rw [hlength] at hrest
    exact hrest

end NorelecBot.Lib.UnionFind
