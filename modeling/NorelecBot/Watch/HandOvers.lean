import NorelecBot.Watch.Judge
import Mathlib

/-! # One stops and the other starts

How often the marks of two accounts change, counted from the ten minutes each of them is
about. In ten minutes both are about, the mark of the second comes before the mark of the
first, and this is all that depends on which of them is the first.
-/

namespace NorelecBot.Watch
open Lib

section
variable (a b : Finset ℤ)

/-- The last mark of one stretch is not the first mark of another. -/
def Passes (before after : ℤ) : Prop := (before ∈ a ∧ after ∈ b) ∨ (before ∉ a ∧ after ∉ b)

instance (before after : ℤ) : Decidable (Passes a b before after) := inferInstanceAs (Decidable (_ ∨ _))

/-- Somebody is about in the stretch after one or in the one after that, and the mark changes on the way. -/
def PassesOn (stretch : ℤ) : Prop :=
  if stretch + 1 ∈ a ∪ b then Passes a b stretch (stretch + 1)
  else stretch + 2 ∈ a ∪ b ∧ Passes a b stretch (stretch + 2)

instance (stretch : ℤ) : Decidable (PassesOn a b stretch) := inferInstanceAs (Decidable (ite _ _ _))

/-- Once within every stretch of both, and once where the mark changes on the way to the next. -/
def handOvers : ℕ := (a ∩ b).card + ((a ∪ b).filter (PassesOn a b)).card

theorem passes_comm {a b : Finset ℤ} (h : Disjoint a b) {before after : ℤ} (hbefore : before ∈ a ∪ b)
    (hafter : after ∈ a ∪ b) : Passes a b before after ↔ Passes b a before after := by
  have hapart {stretch : ℤ} (ha : stretch ∈ a) : stretch ∉ b := Finset.disjoint_left.mp h ha
  have hbefore' := @hapart before
  have hafter' := @hapart after
  rw [Finset.mem_union] at hbefore hafter
  rw [Passes, Passes]
  tauto

/-- Two who are never about in the same ten minutes pass on as often from either side. -/
theorem handOvers_comm {a b : Finset ℤ} (h : Disjoint a b) : handOvers a b = handOvers b a := by
  rw [handOvers, handOvers, Finset.inter_comm b a, Finset.union_comm b a]
  congr 2
  apply Finset.filter_congr
  intro stretch hstretch
  rw [PassesOn, PassesOn, Finset.union_comm b a]
  by_cases hnext : stretch + 1 ∈ a ∪ b
  · rw [if_pos hnext, if_pos hnext, passes_comm h hstretch hnext]
  · rw [if_neg hnext, if_neg hnext]
    exact and_congr_right fun hlater => passes_comm h hstretch hlater

def marks (stretches : List ℤ) : List (ℤ × Bool) :=
  stretches.flatMap fun stretch =>
    (if stretch ∈ b then [(stretch, false)] else []) ++ if stretch ∈ a then [(stretch, true)] else []

theorem mem_marks {stretches : List ℤ} {mark : ℤ × Bool} :
    mark ∈ marks a b stretches ↔ mark.1 ∈ stretches ∧ if mark.2 then mark.1 ∈ a else mark.1 ∈ b := by
  obtain ⟨stretch, first⟩ := mark
  cases first <;> simp [marks, List.mem_flatMap]

/-- Whether there is a change from one mark to the first of the rest. -/
def changes (mark : ℤ × Bool) : List (ℤ × Bool) → ℕ
  | [] => 0
  | next :: _ => if next.2 ≠ mark.2 ∧ next.1 - mark.1 ≤ 2 then 1 else 0

theorem switchesIn_cons (mark : ℤ × Bool) (rest : List (ℤ × Bool)) :
    switchesIn (mark :: rest) = changes mark rest + switchesIn rest := by
  cases rest with
  | nil => rfl
  | cons next rest => rfl

variable {a b}

/-- Both marks of a stretch, or the one there is, and the change from the last of them. -/
theorem switchesIn_stretch {stretch : ℤ} (h : stretch ∈ a ∪ b) (rest : List ℤ) :
    switchesIn (marks a b (stretch :: rest)) =
      (if stretch ∈ a ∩ b then 1 else 0) + changes (stretch, decide (stretch ∈ a)) (marks a b rest) +
        switchesIn (marks a b rest) := by
  rw [marks, List.flatMap_cons, ← marks]
  rw [Finset.mem_union] at h
  by_cases ha : stretch ∈ a
  · by_cases hb : stretch ∈ b
    · simp [ha, hb, switchesIn_cons, changes, add_assoc]
    · simp [ha, hb, switchesIn_cons]
  · have hb := h.resolve_left ha
    simp [ha, hb, switchesIn_cons]

theorem changes_stretch {before after : ℤ} (h : after ∈ a ∪ b) (rest : List ℤ) :
    changes (before, decide (before ∈ a)) (marks a b (after :: rest)) =
      if Passes a b before after ∧ after - before ≤ 2 then 1 else 0 := by
  rw [marks, List.flatMap_cons]
  rw [Finset.mem_union] at h
  by_cases hb : after ∈ b
  · by_cases ha : before ∈ a <;> simp [ha, hb, changes, Passes]
  · have ha' := h.resolve_right hb
    by_cases ha : before ∈ a <;> simp [ha, ha', hb, changes, Passes]

/-- Where the stretches that follow are those that come after in the two sets, the next is the one it passes on to. -/
theorem passesOn_iff {before after : ℤ} (hlt : before < after) (h : after ∈ a ∪ b)
    (hnext : ∀ stretch ∈ a ∪ b, before < stretch → after ≤ stretch) :
    PassesOn a b before ↔ Passes a b before after ∧ after - before ≤ 2 := by
  rw [PassesOn]
  by_cases hone : before + 1 ∈ a ∪ b
  · have hafter : after = before + 1 := by
      have hle := hnext (before + 1) hone (by omega)
      omega
    rw [if_pos hone, hafter]
    exact (and_iff_left (by omega)).symm
  · rw [if_neg hone]
    have hgap : after ≠ before + 1 := fun heq => hone (heq ▸ h)
    constructor
    · rintro ⟨htwo, hpasses⟩
      have hle := hnext (before + 2) htwo (by omega)
      have hafter : after = before + 2 := by omega
      exact ⟨hafter ▸ hpasses, by omega⟩
    · rintro ⟨hpasses, hle⟩
      have hafter : after = before + 2 := by omega
      exact ⟨hafter ▸ h, hafter ▸ hpasses⟩

theorem not_passesOn {stretch : ℤ} (h : ∀ other ∈ a ∪ b, ¬ stretch < other) : ¬ PassesOn a b stretch := by
  rw [PassesOn, if_neg fun hone => h (stretch + 1) hone (by omega)]
  exact fun htwo => h (stretch + 2) htwo.1 (by omega)

/-- Along the rest of all stretches, in their order. -/
theorem switchesIn_marks {stretches : List ℤ} (hsorted : stretches.Pairwise (· < ·))
    (hinside : ∀ stretch ∈ stretches, stretch ∈ a ∪ b)
    (hrest : ∀ stretch ∈ a ∪ b, ∀ first ∈ stretches.head?, first ≤ stretch → stretch ∈ stretches) :
    switchesIn (marks a b stretches) =
      stretches.countP (fun stretch => stretch ∈ a ∩ b) + stretches.countP fun stretch => PassesOn a b stretch := by
  induction stretches with
  | nil => rfl
  | cons stretch rest ih =>
    obtain ⟨hlater, hsorted⟩ := List.pairwise_cons.mp hsorted
    have hstretch := hinside stretch List.mem_cons_self
    have hrest' (other : ℤ) (hother : other ∈ a ∪ b) (hlt : stretch < other) : other ∈ rest := by
      have hmem := hrest other hother stretch rfl hlt.le
      exact (List.mem_cons.mp hmem).resolve_left hlt.ne'
    have hchange : changes (stretch, decide (stretch ∈ a)) (marks a b rest) = if PassesOn a b stretch then 1 else 0 := by
      cases rest with
      | nil => rw [if_neg (not_passesOn fun other hother hlt => by simpa using hrest' other hother hlt)]; rfl
      | cons next rest =>
        have hnext := hinside next (by simp)
        have hpasses := passesOn_iff (hlater next List.mem_cons_self) hnext fun other hother hlt => by
          rcases List.mem_cons.mp (hrest' other hother hlt) with rfl | hin
          · exact le_rfl
          · exact ((List.pairwise_cons.mp hsorted).1 other hin).le
        simp only [changes_stretch hnext, hpasses]
    rw [switchesIn_stretch hstretch, hchange, ih hsorted fun other hother => hinside other (List.mem_cons_of_mem _ hother),
      List.countP_cons, List.countP_cons]
    · simp only [decide_eq_true_eq]
      omega
    · intro other hother first hfirst hle
      have hlt := hlater first (List.mem_of_head? hfirst)
      exact hrest' other hother (lt_of_lt_of_le hlt hle)

theorem countP_sort (s : Finset ℤ) (p : ℤ → Prop) [DecidablePred p] :
    (s.sort (· ≤ ·)).countP (fun stretch => p stretch) = (s.filter p).card := by
  rw [List.countP_eq_length_filter, Finset.card_def, Finset.filter_val, ← Multiset.coe_card, ← Multiset.filter_coe,
    Finset.sort_eq]

theorem switchesIn_sort : switchesIn (marks a b ((a ∪ b).sort (· ≤ ·))) = handOvers a b := by
  rw [switchesIn_marks, countP_sort, countP_sort, handOvers]
  · congr 2
    ext stretch
    simp only [Finset.mem_filter, Finset.mem_union, Finset.mem_inter]
    tauto
  · exact Finset.sortedLT_sort _ |>.pairwise
  · intro stretch hstretch
    exact (Finset.mem_sort _).mp hstretch
  · intro stretch hstretch first _ _
    exact (Finset.mem_sort _).mpr hstretch

end

/-- The order of the marks, as no mark comes twice. -/
def comesEarlier (one other : ℤ × Bool) : Prop := one.1 < other.1 ∨ (one.1 = other.1 ∧ one.2 = false ∧ other.2 = true)

theorem marks_ordered (a b : Finset ℤ) {stretches : List ℤ} (h : stretches.Pairwise (· < ·)) :
    (marks a b stretches).Pairwise comesEarlier := by
  rw [marks, List.pairwise_flatMap]
  constructor
  · intro stretch _
    by_cases ha : stretch ∈ a <;> by_cases hb : stretch ∈ b <;> simp [ha, hb, comesEarlier]
  · have hplace {stretch : ℤ} {mark : ℤ × Bool}
        (h : mark ∈ (if stretch ∈ b then [(stretch, false)] else []) ++ if stretch ∈ a then [(stretch, true)] else []) :
        mark.1 = stretch := by
      by_cases ha : stretch ∈ a <;> by_cases hb : stretch ∈ b <;> simp [ha, hb] at h
      · rcases h with rfl | rfl <;> rfl
      · rw [h]
      · rw [h]
    apply h.imp
    intro before after hlt mark hmark other hother
    left
    rw [hplace hmark, hplace hother]
    exact hlt

def Traits.about (traits : Traits) : Finset ℤ := traits.buckets.keys.toFinset

instance : Std.Total comesBefore where
  total := by
    rintro ⟨one, first⟩ ⟨other, second⟩
    cases first <;> cases second <;> simp [comesBefore] <;> omega

instance : IsTrans (ℤ × Bool) comesBefore where
  trans := by
    rintro one other third (h | h) (h' | h')
    · exact .inl (h.trans h')
    · exact .inl (h'.1 ▸ h)
    · exact .inl (h.1 ▸ h')
    · exact .inr ⟨h.1.trans h'.1, h.2.trans h'.2⟩

theorem comesBefore_antisymm {one other : ℤ × Bool} (h : comesBefore one other) (h' : comesBefore other one) :
    one = other := by
  obtain ⟨place, first⟩ := one
  obtain ⟨place', second⟩ := other
  simp only [comesBefore] at h h'
  have hplace : place = place' := by omega
  have hmark : first = second := le_antisymm (h.resolve_left (by omega)).2 (h'.resolve_left (by omega)).2
  rw [hplace, hmark]

/-- The marks of both accounts, before they are put in order. -/
theorem allMarks_perm (a b : Traits) :
    ((a.buckets.keys.map fun bucket => (bucket, true)) ++ b.buckets.keys.map fun bucket => (bucket, false)).Perm
      (marks a.about b.about ((a.about ∪ b.about).sort (· ≤ ·))) := by
  have hordered := marks_ordered a.about b.about (Finset.sortedLT_sort (a.about ∪ b.about)).pairwise
  have hnodup : (marks a.about b.about ((a.about ∪ b.about).sort (· ≤ ·))).Nodup := by
    apply hordered.imp
    rintro mark other hearlier rfl
    simp [comesEarlier] at hearlier
  have hboth : ((a.buckets.keys.map fun bucket => (bucket, true)) ++
      b.buckets.keys.map fun bucket => (bucket, false)).Nodup := by
    rw [List.nodup_append]
    refine ⟨a.buckets.nodup_keys.map fun one other h => (Prod.mk.inj h).1,
      b.buckets.nodup_keys.map fun one other h => (Prod.mk.inj h).1, ?_⟩
    simp
  rw [List.perm_ext_iff_of_nodup hboth hnodup]
  rintro ⟨stretch, first⟩
  rw [mem_marks]
  cases first with
  | false => simpa [Traits.about] using fun h => .inr h
  | true => simpa [Traits.about] using fun h => .inl h

theorem mergedBuckets_eq (a b : Traits) :
    mergedBuckets a b = marks a.about b.about ((a.about ∪ b.about).sort (· ≤ ·)) := by
  have hordered := marks_ordered a.about b.about (Finset.sortedLT_sort (a.about ∪ b.about)).pairwise
  have hperm := (List.perm_insertionSort comesBefore _).trans (allMarks_perm a b)
  apply hperm.eq_of_pairwise (fun one other _ _ => comesBefore_antisymm) (List.pairwise_insertionSort _ _)
  apply hordered.imp
  rintro mark other (h | ⟨h, h'⟩)
  · exact .inl h
  · exact .inr ⟨h, by simp [h']⟩

theorem switchesIn_mergedBuckets (a b : Traits) : switchesIn (mergedBuckets a b) = handOvers a.about b.about := by
  rw [mergedBuckets_eq, switchesIn_sort]

end NorelecBot.Watch
