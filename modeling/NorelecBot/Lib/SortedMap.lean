import NorelecBot.Lib.OrderedMap

/-! # Maps from numbers, kept in increasing order of their keys -/

namespace NorelecBot.Lib

variable {α : Type*}

/-- Write a key into an increasing entry list. -/
def insertSorted (k : ℕ) (v : α) : List (ℕ × α) → List (ℕ × α)
  | [] => [(k, v)]
  | e :: es =>
    if k < e.1 then (k, v) :: e :: es
    else if k = e.1 then (k, v) :: es
    else e :: insertSorted k v es

theorem mem_insertSorted {k : ℕ} {v : α} {es : List (ℕ × α)} {d : ℕ × α}
    (h : d ∈ insertSorted k v es) : d = (k, v) ∨ d ∈ es := by
  induction es with
  | nil => exact Or.inl (by simpa [insertSorted] using h)
  | cons e es ih =>
    rw [insertSorted] at h
    split at h
    · simpa using h
    · split at h
      · rcases List.mem_cons.mp h with h | h
        · exact Or.inl h
        · exact Or.inr (List.mem_cons_of_mem _ h)
      · rcases List.mem_cons.mp h with h | h
        · exact Or.inr (h ▸ List.mem_cons_self)
        · exact (ih h).imp id (List.mem_cons_of_mem _)

theorem insertSorted_pairwise (k : ℕ) (v : α) {es : List (ℕ × α)}
    (h : es.Pairwise fun d e => d.1 < e.1) :
    (insertSorted k v es).Pairwise fun d e => d.1 < e.1 := by
  induction es with
  | nil => simp [insertSorted]
  | cons e es ih =>
    rw [List.pairwise_cons] at h
    rw [insertSorted]
    split
    · rename_i hk
      refine List.pairwise_cons.mpr ⟨fun d hd => ?_, List.pairwise_cons.mpr h⟩
      rcases List.mem_cons.mp hd with rfl | hd
      · exact hk
      · exact hk.trans (h.1 d hd)
    · split
      · rename_i hk
        exact List.pairwise_cons.mpr ⟨fun d hd => hk ▸ h.1 d hd, h.2⟩
      · refine List.pairwise_cons.mpr ⟨fun d hd => ?_, ih h.2⟩
        rcases mem_insertSorted hd with rfl | hd
        · change e.1 < k
          omega
        · exact h.1 d hd

/-- An entry list whose keys increase. -/
structure SortedMap (α : Type*) where
  entries : List (ℕ × α)
  sorted : entries.Pairwise fun d e => d.1 < e.1

namespace SortedMap

instance [DecidableEq α] : DecidableEq (SortedMap α) := fun m n =>
  decidable_of_iff (m.entries = n.entries) (by cases m; cases n; simp)

def empty : SortedMap α := ⟨[], List.Pairwise.nil⟩

instance : Inhabited (SortedMap α) := ⟨empty⟩

def find (m : SortedMap α) (k : ℕ) : Option α := assoc k m.entries

def set (m : SortedMap α) (k : ℕ) (v : α) : SortedMap α :=
  ⟨insertSorted k v m.entries, insertSorted_pairwise k v m.sorted⟩

@[simp] theorem find_empty (k : ℕ) : (empty : SortedMap α).find k = none := rfl

theorem find_set (m : SortedMap α) (k : ℕ) (v : α) (j : ℕ) :
    (m.set k v).find j = if j = k then some v else m.find j := by
  have hinsert (es : List (ℕ × α)) : assoc j (insertSorted k v es) = if j = k then some v else assoc j es := by
    induction es with
    | nil => simp [insertSorted, assoc, eq_comm]
    | cons e es ih =>
      rw [insertSorted]
      split
      · simp [assoc, eq_comm]
      · split
        · rename_i hk
          by_cases hj : j = k
          · simp [assoc, hj]
          · simp [assoc, hj, ← hk, Ne.symm hj]
        · rename_i hk
          rw [assoc, ih, assoc]
          by_cases he : e.1 = j
          · rw [if_pos he, if_pos he, if_neg fun hj => hk (hj.symm.trans he.symm)]
          · rw [if_neg he, if_neg he]
  exact hinsert m.entries

theorem find_eq_some {m : SortedMap α} {k : ℕ} {v : α} : m.find k = some v ↔ (k, v) ∈ m.entries := by
  refine assoc_eq_some_iff_mem ?_ k v
  rw [List.nodup_iff_pairwise_ne, List.pairwise_map]
  exact m.sorted.imp fun h => h.ne

end SortedMap

end NorelecBot.Lib
