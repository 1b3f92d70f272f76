import NorelecBot.Lib.SortedMap

/-! # What is written reads back

A reader is lawful for a writer when it gives back whatever was written. The
law lifts to lists read one entry after the other, and to maps built up from
their entries: kept in insertion order where an entry that is there stays, or
sorted where a later entry replaces it. A reader that refuses some input ensures
what holds of everything it accepts.
-/

namespace NorelecBot.Lib

universe u

section ReadsBack
variable {ε J : Type*} {α β : Type u}

def ReadsBack (read : J → Except ε α) (write : α → J) : Prop := ∀ value, read (write value) = .ok value

theorem ReadsBack.list {read : J → Except ε α} {write : α → J} (h : ReadsBack read write)
    (values : List α) : (values.map write).mapM read = .ok values := by
  induction values with
  | nil => rfl
  | cons value values ih =>
    rw [List.map_cons, List.mapM_cons, h value, ih]
    rfl

/-- What every value the reader accepts satisfies. -/
def Ensures (holds : α → Prop) (result : Except ε α) : Prop := ∀ value, result = .ok value → holds value

theorem ensures_ok {holds : α → Prop} {value : α} (h : holds value) :
    Ensures holds (.ok value : Except ε α) := by
  intro other hother
  cases hother
  exact h

theorem ensures_bind {holds : β → Prop} {first : Except ε α} {rest : α → Except ε β}
    (h : ∀ value, first = .ok value → Ensures holds (rest value)) :
    Ensures holds (first >>= rest) := by
  cases first with
  | error reason =>
    intro other hother
    cases hother
  | ok value => exact h value rfl

/-- An invariant kept by each step holds where a fold over all of them ends. -/
theorem ensures_foldlM {holds : β → Prop} {step : β → α → Except ε β}
    (hstep : ∀ state value, holds state → Ensures holds (step state value)) (values : List α)
    {state : β} (h : holds state) : Ensures holds (values.foldlM step state) := by
  induction values generalizing state with
  | nil => exact ensures_ok h
  | cons value values ih =>
    rw [List.foldlM_cons]
    apply ensures_bind
    intro next hnext
    exact ih (hstep state value h next hnext)

end ReadsBack

namespace OrderedMap
variable {κ α : Type*} [DecidableEq κ]

/-- A new entry goes to the end; one that is there stays as it is. -/
def emplace (m : OrderedMap κ α) (key : κ) (value : α) : OrderedMap κ α :=
  if (m.find key).isSome then m else m.set key value

theorem upsert_of_not_mem {key : κ} (value : α) {es : List (κ × α)}
    (h : key ∉ es.map Prod.fst) : upsert key value es = es ++ [(key, value)] := by
  induction es with
  | nil => rfl
  | cons e es ih =>
    rw [List.map_cons, List.mem_cons, not_or] at h
    rw [upsert, if_neg (Ne.symm h.1), ih h.2, List.cons_append]

theorem entries_emplace_of_not_mem {m : OrderedMap κ α} {key : κ} (h : key ∉ m.keys) (value : α) :
    (m.emplace key value).entries = m.entries ++ [(key, value)] := by
  have hfresh : m.find key = none := find_eq_none.mpr h
  simp only [emplace, hfresh, Option.isSome_none, Bool.false_eq_true, if_false]
  exact upsert_of_not_mem value h

theorem entries_foldl_emplace (es : List (κ × α)) (m : OrderedMap κ α)
    (h : ((m.entries ++ es).map Prod.fst).Nodup) :
    (es.foldl (fun m e => m.emplace e.1 e.2) m).entries = m.entries ++ es := by
  induction es generalizing m with
  | nil => simp
  | cons e es ih =>
    have hfresh : e.1 ∉ m.keys := by
      intro hmem
      rw [List.map_append, List.nodup_append] at h
      exact h.2.2 e.1 hmem e.1 (by simp) rfl
    have hone := entries_emplace_of_not_mem hfresh e.2
    rw [List.foldl_cons, ih (m.emplace e.1 e.2) (by simpa [hone] using h), hone]
    simp

/-- Taking the entries of a map one by one builds it again. -/
theorem foldl_emplace_entries (m : OrderedMap κ α) :
    m.entries.foldl (fun m e => m.emplace e.1 e.2) empty = m := by
  apply OrderedMap.ext
  rw [entries_foldl_emplace m.entries empty m.nodup]
  rfl

end OrderedMap

namespace SortedMap
variable {α : Type*}

@[ext] theorem ext {m n : SortedMap α} (h : m.entries = n.entries) : m = n := by
  cases m
  cases n
  simpa using h

theorem insertSorted_of_above {key : ℕ} (value : α) {es : List (ℕ × α)}
    (h : ∀ e ∈ es, e.1 < key) : insertSorted key value es = es ++ [(key, value)] := by
  induction es with
  | nil => rfl
  | cons e es ih =>
    have hbelow : e.1 < key := h e List.mem_cons_self
    rw [insertSorted, if_neg (by omega), if_neg (by omega),
      ih fun d hd => h d (List.mem_cons_of_mem e hd), List.cons_append]

theorem entries_foldl_set (es : List (ℕ × α)) (m : SortedMap α)
    (h : (m.entries ++ es).Pairwise fun d e => d.1 < e.1) :
    (es.foldl (fun m e => m.set e.1 e.2) m).entries = m.entries ++ es := by
  induction es generalizing m with
  | nil => simp
  | cons e es ih =>
    have habove : ∀ d ∈ m.entries, d.1 < e.1 := by
      intro d hd
      rw [List.pairwise_append] at h
      exact h.2.2 d hd e List.mem_cons_self
    have hone : (m.set e.1 e.2).entries = m.entries ++ [e] := insertSorted_of_above e.2 habove
    rw [List.foldl_cons, ih (m.set e.1 e.2) (by simpa [hone] using h), hone]
    simp

theorem foldl_set_entries (m : SortedMap α) :
    m.entries.foldl (fun m e => m.set e.1 e.2) empty = m := by
  apply SortedMap.ext
  rw [entries_foldl_set m.entries empty m.sorted]
  rfl

end SortedMap

end NorelecBot.Lib
