import Mathlib.Data.List.Nodup
import Mathlib.Data.List.Range

/-! # Ranks, counted and sorted

In an order in which any two things are one before the other, the rank of a thing can
be counted, one more than there are things before it, or read off its place once all
are sorted. Both come to the same.
-/

namespace NorelecBot.Lib

variable {α : Type*}

/-- Any two things are one before the other, and never each before the other. -/
structure StrictlyRanks (before : α → α → Bool) : Prop where
  irrefl : ∀ one, before one one = false
  trans : ∀ one other third, before one other = true → before other third = true → before one third = true
  total : ∀ one other, before one other = true ∨ one = other ∨ before other one = true

section
variable (before : α → α → Bool)

def inOrder (those : List α) : List α := those.mergeSort fun one other => !before other one

def countedRank (those : List α) (one : α) : ℕ := (those.filter (before · one)).length + 1

end

section
variable {before : α → α → Bool}

theorem StrictlyRanks.asymm (h : StrictlyRanks before) {one other : α} (hbefore : before one other = true) :
    before other one = false := by
  by_contra hback
  have hself := h.trans one other one hbefore (by simpa using hback)
  rw [h.irrefl] at hself
  cases hself

theorem inOrder_perm (those : List α) : (inOrder before those).Perm those := List.mergeSort_perm _ _

theorem StrictlyRanks.sorted (h : StrictlyRanks before) {those : List α} (hnodup : those.Nodup) :
    (inOrder before those).Pairwise fun one other => before one other = true := by
  have hle : (inOrder before those).Pairwise fun one other => (!before other one) = true := by
    apply List.pairwise_mergeSort
    · intro one other third hfirst hnext
      simp only [Bool.not_eq_true'] at hfirst hnext ⊢
      by_contra hback
      have hback : before third one = true := by simpa using hback
      rcases h.total one other with hone | rfl | hone
      · rw [h.trans third one other hback hone] at hnext
        cases hnext
      · rw [hback] at hnext
        cases hnext
      · rw [hone] at hfirst
        cases hfirst
    · intro one other
      rw [Bool.or_eq_true, Bool.not_eq_true', Bool.not_eq_true']
      by_cases hbefore : before other one = true
      · exact .inr (h.asymm hbefore)
      · exact .inl (by simpa using hbefore)
  have hdistinct : (inOrder before those).Nodup := (inOrder_perm those).nodup_iff.mpr hnodup
  apply (hle.and hdistinct).imp
  rintro one other ⟨hnot, hne⟩
  rcases h.total one other with hbefore | rfl | hback
  · exact hbefore
  · exact absurd rfl hne
  · rw [hback] at hnot
    cases hnot

/-- In a sorted list what comes before a thing is what stands before it. -/
theorem StrictlyRanks.filter_of_sorted (h : StrictlyRanks before) {earlier later : List α} {one : α}
    (hsorted : (earlier ++ one :: later).Pairwise fun one other => before one other = true) :
    (earlier ++ one :: later).filter (before · one) = earlier := by
  obtain ⟨-, htail, hacross⟩ := List.pairwise_append.mp hsorted
  obtain ⟨hlater, -⟩ := List.pairwise_cons.mp htail
  rw [List.filter_append, List.filter_cons_of_neg (by simp [h.irrefl])]
  have hall : earlier.filter (before · one) = earlier :=
    List.filter_eq_self.mpr fun other hother => hacross other hother one List.mem_cons_self
  have hnone : later.filter (before · one) = [] := by
    rw [List.filter_eq_nil_iff]
    intro other hother
    rw [h.asymm (hlater other hother)]
    exact Bool.false_ne_true
  rw [hall, hnone, List.append_nil]

/-- The rank counted is the place among the sorted. -/
theorem StrictlyRanks.rank_of_place (h : StrictlyRanks before) {those : List α} (hnodup : those.Nodup) {place : ℕ}
    {one : α} (hplace : (inOrder before those)[place]? = some one) : countedRank before those one = place + 1 := by
  obtain ⟨earlier, later, hcut, hlength⟩ : ∃ earlier later, inOrder before those = earlier ++ one :: later ∧
      earlier.length = place := by
    obtain ⟨hlt, rfl⟩ := List.getElem?_eq_some_iff.mp hplace
    refine ⟨(inOrder before those).take place, (inOrder before those).drop (place + 1), ?_, by
      rw [List.length_take, min_eq_left hlt.le]⟩
    rw [← List.drop_eq_getElem_cons hlt, List.take_append_drop]
  have hsorted := h.sorted hnodup
  rw [hcut] at hsorted
  rw [countedRank, ← ((inOrder_perm those).filter _).length_eq, hcut, h.filter_of_sorted hsorted,
    hlength]

/-- The ranks of the sorted are one after the other, from the first. -/
theorem StrictlyRanks.ranks (h : StrictlyRanks before) {those : List α} (hnodup : those.Nodup) :
    (inOrder before those).map (countedRank before those) = List.range' 1 those.length := by
  apply List.ext_getElem?
  intro place
  rw [List.getElem?_map]
  cases hplace : (inOrder before those)[place]? with
  | none =>
    have hlength := List.getElem?_eq_none_iff.mp hplace
    rw [(inOrder_perm those).length_eq] at hlength
    rw [List.getElem?_eq_none (by rwa [List.length_range'])]
    rfl
  | some one =>
    have hlt := (List.getElem?_eq_some_iff.mp hplace).1
    rw [(inOrder_perm those).length_eq] at hlt
    rw [Option.map_some, h.rank_of_place hnodup hplace, List.getElem?_range' hlt]
    congr 1
    omega

end

end NorelecBot.Lib
