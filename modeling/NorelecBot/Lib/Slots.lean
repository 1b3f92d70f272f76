import Mathlib.Algebra.BigOperators.Group.List.Basic
import Mathlib.Algebra.Group.Basic
import Mathlib.Tactic.Abel

/-! # Numbered slots, some of them empty

A shelf is a list of words and an empty word marks an empty slot. Slots past the
end read as empty, so neither padding a shelf nor dropping its trailing empty
slots changes what is in any slot.
-/

namespace NorelecBot.Lib

variable {β A : Type*}

/-- What is in a slot; nothing past the end. -/
def slotAt (l : List (List β)) (i : ℕ) : List β := l.getD i []

/-- The shelf without its trailing empty slots. -/
def trimSlots : List (List β) → List (List β)
  | [] => []
  | s :: l => if trimSlots l = [] ∧ s = [] then [] else s :: trimSlots l

/-- The shelf made at least that long. -/
def padSlots (n : ℕ) (l : List (List β)) : List (List β) := l ++ List.replicate (n - l.length) []

/-- The shelf with a word in one slot, made longer where the slot is past its end. -/
def fillSlot (l : List (List β)) (i : ℕ) (e : List β) : List (List β) := (padSlots (i + 1) l).set i e

/-- The index of the first empty slot, the length where all are taken. -/
def firstEmpty : List (List β) → ℕ
  | [] => 0
  | [] :: _ => 0
  | (_ :: _) :: l => firstEmpty l + 1

@[simp] theorem slotAt_nil (i : ℕ) : slotAt ([] : List (List β)) i = [] := rfl

@[simp] theorem slotAt_cons_zero (s : List β) (l : List (List β)) : slotAt (s :: l) 0 = s := rfl

@[simp] theorem slotAt_cons_succ (s : List β) (l : List (List β)) (i : ℕ) :
    slotAt (s :: l) (i + 1) = slotAt l i := rfl

theorem slotAt_of_lt {l : List (List β)} {i : ℕ} (h : i < l.length) : slotAt l i = l[i] := by
  simp [slotAt, h]

theorem slotAt_of_length_le {l : List (List β)} {i : ℕ} (h : l.length ≤ i) : slotAt l i = [] := by
  simp [slotAt, h]

theorem lt_length_of_slotAt_ne {l : List (List β)} {i : ℕ} (h : slotAt l i ≠ []) : i < l.length := by
  by_contra hi
  exact h (slotAt_of_length_le (Nat.le_of_not_lt hi))

theorem trimSlots_eq_nil {l : List (List β)} : trimSlots l = [] ↔ ∀ i, slotAt l i = [] := by
  induction l with
  | nil => simp [trimSlots]
  | cons s l ih =>
    rw [trimSlots]
    constructor
    · intro h i
      split at h
      · rename_i hs
        cases i with
        | zero => simpa using hs.2
        | succ i => simpa using ih.mp hs.1 i
      · cases h
    · intro h
      rw [if_pos ⟨ih.mpr fun i => by simpa using h (i + 1), by simpa using h 0⟩]

@[simp] theorem slotAt_trimSlots (l : List (List β)) (i : ℕ) : slotAt (trimSlots l) i = slotAt l i := by
  induction l generalizing i with
  | nil => rfl
  | cons s l ih =>
    rw [trimSlots]
    split
    · rename_i h
      cases i with
      | zero => simp [h.2]
      | succ i => simpa using (trimSlots_eq_nil.mp h.1 i).symm
    · cases i with
      | zero => rfl
      | succ i => simpa using ih i

theorem trimSlots_sublist (l : List (List β)) : (trimSlots l).Sublist l := by
  induction l with
  | nil => exact List.Sublist.refl _
  | cons s l ih =>
    rw [trimSlots]
    split
    · exact List.nil_sublist _
    · exact ih.cons_cons s

theorem trimSlots_length_le (l : List (List β)) : (trimSlots l).length ≤ l.length :=
  (trimSlots_sublist l).length_le

theorem mem_padSlots {n : ℕ} {l : List (List β)} {e : List β} (h : e ∈ padSlots n l) :
    e ∈ l ∨ e = [] := by
  rcases List.mem_append.mp h with h | h
  · exact .inl h
  · exact .inr (List.eq_of_mem_replicate h)

theorem mem_fillSlot {l : List (List β)} {i : ℕ} {e d : List β} (h : d ∈ fillSlot l i e) :
    d ∈ l ∨ d = [] ∨ d = e := by
  rcases List.mem_or_eq_of_mem_set h with h | h
  · exact (mem_padSlots h).imp id .inl
  · exact .inr (.inr h)

theorem slotAt_mem {l : List (List β)} {i : ℕ} (h : slotAt l i ≠ []) : slotAt l i ∈ l := by
  rw [slotAt_of_lt (lt_length_of_slotAt_ne h)]
  exact List.getElem_mem _

@[simp] theorem slotAt_padSlots (n : ℕ) (l : List (List β)) (i : ℕ) :
    slotAt (padSlots n l) i = slotAt l i := by
  rcases Nat.lt_or_ge i l.length with h | h
  · simp [slotAt, padSlots, List.getD_eq_getElem?_getD, List.getElem?_append_left h]
  · rw [slotAt_of_length_le h, slotAt, padSlots, List.getD_eq_getElem?_getD,
      List.getElem?_append_right h, List.getElem?_replicate]
    split <;> rfl

theorem padSlots_length (n : ℕ) (l : List (List β)) : (padSlots n l).length = max l.length n := by
  simp only [padSlots, List.length_append, List.length_replicate]
  omega

theorem fillSlot_length (l : List (List β)) (i : ℕ) (e : List β) :
    (fillSlot l i e).length = max l.length (i + 1) := by
  rw [fillSlot, List.length_set, padSlots_length]

theorem slotAt_set (l : List (List β)) (i : ℕ) (e : List β) (j : ℕ) :
    slotAt (l.set i e) j = if j = i ∧ i < l.length then e else slotAt l j := by
  simp only [slotAt, List.getD_eq_getElem?_getD, List.getElem?_set]
  by_cases h : i = j
  · subst h
    by_cases hi : i < l.length
    · simp [hi]
    · simp [hi]
  · simp [h, Ne.symm h]

theorem slotAt_fillSlot (l : List (List β)) (i : ℕ) (e : List β) (j : ℕ) :
    slotAt (fillSlot l i e) j = if j = i then e else slotAt l j := by
  have hi : i < (padSlots (i + 1) l).length := by
    rw [padSlots_length]
    omega
  rw [fillSlot, slotAt_set, slotAt_padSlots]
  simp [hi]

theorem fillSlot_of_lt {l : List (List β)} {i : ℕ} (h : i < l.length) (e : List β) :
    fillSlot l i e = l.set i e := by
  have hn : i + 1 - l.length = 0 := by omega
  simp [fillSlot, padSlots, hn]

theorem firstEmpty_le_length (l : List (List β)) : firstEmpty l ≤ l.length := by
  induction l with
  | nil => simp [firstEmpty]
  | cons s l ih =>
    cases s with
    | nil => simp [firstEmpty]
    | cons a s => simpa [firstEmpty] using ih

@[simp] theorem slotAt_firstEmpty (l : List (List β)) : slotAt l (firstEmpty l) = [] := by
  induction l with
  | nil => rfl
  | cons s l ih =>
    cases s with
    | nil => rfl
    | cons a s => simpa [firstEmpty] using ih

theorem slotAt_ne_of_lt_firstEmpty {l : List (List β)} {i : ℕ} (h : i < firstEmpty l) :
    slotAt l i ≠ [] := by
  induction l generalizing i with
  | nil => simp [firstEmpty] at h
  | cons s l ih =>
    cases s with
    | nil => simp [firstEmpty] at h
    | cons a s =>
      cases i with
      | zero => simp
      | succ i => exact ih (by simpa [firstEmpty] using h)

def emptySlots (limit : ℕ) (l : List (List β)) : List ℕ := (List.range limit).filter fun i => slotAt l i = []

theorem emptySlots_eq_nil {limit : ℕ} {l : List (List β)} (h : limit ≤ firstEmpty l) : emptySlots limit l = [] := by
  rw [emptySlots, List.filter_eq_nil_iff]
  intro i hi
  have hlt := List.mem_range.mp hi
  simpa using slotAt_ne_of_lt_firstEmpty (by omega : i < firstEmpty l)

theorem emptySlots_eq_cons {limit : ℕ} {l : List (List β)} (h : firstEmpty l < limit) :
    ∃ rest, emptySlots limit l = firstEmpty l :: rest := by
  have hfirst : (emptySlots limit l).head? = some (firstEmpty l) := by
    rw [emptySlots, List.head?_filter, List.find?_range_eq_some]
    refine ⟨by simp, List.mem_range.mpr h, fun i hi => ?_⟩
    simpa using slotAt_ne_of_lt_firstEmpty hi
  exact List.head?_eq_some_iff.mp hfirst

/-- Filling the first empty slot leaves the others. -/
theorem emptySlots_fillSlot {limit : ℕ} {l : List (List β)} {e : List β} {rest : List ℕ} (he : e ≠ [])
    (h : emptySlots limit l = firstEmpty l :: rest) : emptySlots limit (fillSlot l (firstEmpty l) e) = rest := by
  have hnodup : (emptySlots limit l).Nodup := List.nodup_range.filter _
  rw [h] at hnodup
  have hnew := (List.nodup_cons.mp hnodup).1
  have hothers : emptySlots limit (fillSlot l (firstEmpty l) e) =
      (emptySlots limit l).filter fun i => i ≠ firstEmpty l := by
    rw [emptySlots, emptySlots, List.filter_filter]
    apply List.filter_congr
    intro i _
    rw [slotAt_fillSlot]
    by_cases hi : i = firstEmpty l
    · simp [hi, he]
    · simp [hi]
  rw [hothers, h, List.filter_cons_of_neg (by simp), List.filter_eq_self]
  intro i hi
  simpa using fun heq : i = firstEmpty l => hnew (heq ▸ hi)

variable [AddCommMonoid A]

def shelfSum (w : List β → A) (l : List (List β)) : A := (l.map w).sum

@[simp] theorem shelfSum_nil (w : List β → A) : shelfSum w [] = 0 := rfl

@[simp] theorem shelfSum_cons (w : List β → A) (s : List β) (l : List (List β)) :
    shelfSum w (s :: l) = w s + shelfSum w l := by
  simp [shelfSum]

theorem shelfSum_append (w : List β → A) (l m : List (List β)) :
    shelfSum w (l ++ m) = shelfSum w l + shelfSum w m := by
  simp [shelfSum]

/-- Writing one slot adds the weight of the new word and takes out that of the old one. -/
theorem shelfSum_set (w : List β → A) {l : List (List β)} {i : ℕ} (h : i < l.length) (e : List β) :
    shelfSum w (l.set i e) + w (slotAt l i) = shelfSum w l + w e := by
  induction l generalizing i with
  | nil => simp at h
  | cons s l ih =>
    cases i with
    | zero =>
      rw [List.set_cons_zero, shelfSum_cons, shelfSum_cons, slotAt_cons_zero]
      abel
    | succ i =>
      rw [List.set_cons_succ, shelfSum_cons, shelfSum_cons, slotAt_cons_succ, add_assoc,
        ih (by simpa using h), add_assoc]

section
variable {w : List β → A} (hw : w [] = 0)
include hw

theorem shelfSum_replicate (n : ℕ) : shelfSum w (List.replicate n []) = 0 := by
  induction n with
  | zero => rfl
  | succ n ih => rw [List.replicate_succ, shelfSum_cons, hw, ih, add_zero]

theorem shelfSum_padSlots (n : ℕ) (l : List (List β)) : shelfSum w (padSlots n l) = shelfSum w l := by
  rw [padSlots, shelfSum_append, shelfSum_replicate hw, add_zero]

theorem shelfSum_trimSlots (l : List (List β)) : shelfSum w (trimSlots l) = shelfSum w l := by
  induction l with
  | nil => rfl
  | cons s l ih =>
    rw [trimSlots]
    split
    · rename_i h
      rw [shelfSum_cons, ← ih, h.1, h.2, hw]
      simp
    · rw [shelfSum_cons, shelfSum_cons, ih]

theorem shelfSum_fillSlot (l : List (List β)) (i : ℕ) (e : List β) :
    shelfSum w (fillSlot l i e) + w (slotAt l i) = shelfSum w l + w e := by
  have hi : i < (padSlots (i + 1) l).length := by
    rw [padSlots_length]
    omega
  have h := shelfSum_set w hi e
  rwa [slotAt_padSlots, shelfSum_padSlots hw] at h

end

end NorelecBot.Lib
