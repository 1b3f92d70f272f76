import Mathlib.Algebra.BigOperators.Group.List.Basic
import Mathlib.Algebra.Group.Basic
import Mathlib.Data.List.Nodup
import Mathlib.Tactic.Abel

/-! # Maps that keep their entries in insertion order

An entry list with distinct keys, looked up from the front. Writing a key that
is there replaces its value in place; writing a new one appends it. The sum of
a measure over the entries changes by exactly the value written and the one it
replaces.
-/

namespace NorelecBot.Lib

variable {κ α β A : Type*} [DecidableEq κ]

/-- The value of the first entry with that key. -/
def assoc (k : κ) : List (κ × α) → Option α
  | [] => none
  | e :: es => if e.1 = k then some e.2 else assoc k es

/-- Replace the value of a key where it stands, or append a new entry. -/
def upsert (k : κ) (v : α) : List (κ × α) → List (κ × α)
  | [] => [(k, v)]
  | e :: es => if e.1 = k then (k, v) :: es else e :: upsert k v es

theorem upsert_keys (k : κ) (v : α) (es : List (κ × α)) :
    (upsert k v es).map Prod.fst =
      if k ∈ es.map Prod.fst then es.map Prod.fst else es.map Prod.fst ++ [k] := by
  induction es with
  | nil => simp [upsert]
  | cons e es ih =>
    by_cases h : e.1 = k
    · simp [upsert, h]
    · have hk : ¬ k = e.1 := fun hk => h hk.symm
      rw [upsert, if_neg h, List.map_cons, List.map_cons, ih]
      by_cases hm : k ∈ es.map Prod.fst
      · rw [if_pos hm, if_pos (List.mem_cons_of_mem _ hm)]
      · rw [if_neg hm, if_neg (by simpa [hk] using hm), List.cons_append]

theorem assoc_upsert (k : κ) (v : α) (es : List (κ × α)) (j : κ) :
    assoc j (upsert k v es) = if j = k then some v else assoc j es := by
  induction es with
  | nil =>
    by_cases h : k = j
    · simp [upsert, assoc, h]
    · simp [upsert, assoc, h, Ne.symm h]
  | cons e es ih =>
    by_cases h : e.1 = k
    · subst h
      by_cases hj : e.1 = j
      · simp [upsert, assoc, hj]
      · simp [upsert, assoc, hj, Ne.symm hj]
    · rw [upsert, if_neg h, assoc, assoc, ih]
      by_cases hj : e.1 = j
      · subst hj
        simp [h]
      · simp [hj]

theorem assoc_eq_some_iff_mem {es : List (κ × α)} (hn : (es.map Prod.fst).Nodup) (k : κ) (v : α) :
    assoc k es = some v ↔ (k, v) ∈ es := by
  induction es with
  | nil => simp [assoc]
  | cons e es ih =>
    obtain ⟨a, b⟩ := e
    rw [List.map_cons, List.nodup_cons] at hn
    rw [assoc, List.mem_cons, ← ih hn.2]
    by_cases h : a = k
    · subst h
      have hout : assoc a es ≠ some v := fun hl =>
        hn.1 (List.mem_map.mpr ⟨(a, v), (ih hn.2).mp hl, rfl⟩)
      simp [hout, eq_comm]
    · simp [h, Ne.symm h]

/-- An entry list whose keys are all different. -/
structure OrderedMap (κ α : Type*) where
  entries : List (κ × α)
  nodup : (entries.map Prod.fst).Nodup

namespace OrderedMap

instance [DecidableEq α] : DecidableEq (OrderedMap κ α) := fun m n =>
  decidable_of_iff (m.entries = n.entries) (by cases m; cases n; simp)

omit [DecidableEq κ] in
@[ext] theorem ext {m n : OrderedMap κ α} (h : m.entries = n.entries) : m = n := by
  cases m
  cases n
  simpa using h

def empty : OrderedMap κ α := ⟨[], List.nodup_nil⟩

instance : Inhabited (OrderedMap κ α) := ⟨empty⟩

def keys (m : OrderedMap κ α) : List κ := m.entries.map Prod.fst

def find (m : OrderedMap κ α) (k : κ) : Option α := assoc k m.entries

def set (m : OrderedMap κ α) (k : κ) (v : α) : OrderedMap κ α where
  entries := upsert k v m.entries
  nodup := by
    rw [upsert_keys]
    split
    · exact m.nodup
    · rename_i h
      refine List.nodup_append.mpr ⟨m.nodup, List.nodup_singleton k, ?_⟩
      rintro a ha b hb rfl
      exact h (List.mem_singleton.mp hb ▸ ha)

def filter (p : κ → α → Bool) (m : OrderedMap κ α) : OrderedMap κ α where
  entries := m.entries.filter fun e => p e.1 e.2
  nodup := (List.filter_sublist.map Prod.fst).nodup m.nodup

def erase (m : OrderedMap κ α) (k : κ) : OrderedMap κ α := m.filter fun j _ => j ≠ k

def mapVals (f : α → β) (m : OrderedMap κ α) : OrderedMap κ β where
  entries := m.entries.map fun e => (e.1, f e.2)
  nodup := by simpa [List.map_map, Function.comp_def] using m.nodup

@[simp] theorem find_empty (k : κ) : (empty : OrderedMap κ α).find k = none := rfl

omit [DecidableEq κ] in
@[simp] theorem keys_empty : (empty : OrderedMap κ α).keys = [] := rfl

theorem find_set (m : OrderedMap κ α) (k : κ) (v : α) (j : κ) :
    (m.set k v).find j = if j = k then some v else m.find j :=
  assoc_upsert k v m.entries j

@[simp] theorem find_set_self (m : OrderedMap κ α) (k : κ) (v : α) :
    (m.set k v).find k = some v := by
  rw [find_set, if_pos rfl]

theorem find_set_of_ne (m : OrderedMap κ α) {k j : κ} (v : α) (h : j ≠ k) :
    (m.set k v).find j = m.find j := by
  rw [find_set, if_neg h]

theorem find_eq_some {m : OrderedMap κ α} {k : κ} {v : α} :
    m.find k = some v ↔ (k, v) ∈ m.entries :=
  assoc_eq_some_iff_mem m.nodup k v

theorem find_eq_none {m : OrderedMap κ α} {k : κ} : m.find k = none ↔ k ∉ m.keys := by
  rw [Option.eq_none_iff_forall_ne_some]
  simp only [ne_eq, find_eq_some, keys, List.mem_map, not_exists, not_and]
  constructor
  · rintro h ⟨a, b⟩ he rfl
    exact h b he
  · exact fun h v he => h (k, v) he rfl

theorem mem_keys {m : OrderedMap κ α} {k : κ} : k ∈ m.keys ↔ ∃ v, m.find k = some v := by
  rw [← Option.isSome_iff_exists, Option.isSome_iff_ne_none, ne_eq, find_eq_none, not_not]

theorem keys_set (m : OrderedMap κ α) (k : κ) (v : α) :
    (m.set k v).keys = if k ∈ m.keys then m.keys else m.keys ++ [k] :=
  upsert_keys k v m.entries

theorem mem_keys_set {m : OrderedMap κ α} {k j : κ} {v : α} :
    j ∈ (m.set k v).keys ↔ j = k ∨ j ∈ m.keys := by
  rw [keys_set]
  split
  · rename_i h
    exact ⟨Or.inr, fun hj => hj.elim (fun he => he ▸ h) id⟩
  · simp [or_comm]

omit [DecidableEq κ] in
theorem mem_entries_filter {p : κ → α → Bool} {m : OrderedMap κ α} {e : κ × α} :
    e ∈ (m.filter p).entries ↔ e ∈ m.entries ∧ p e.1 e.2 = true :=
  List.mem_filter

theorem find_filter (p : κ → α → Bool) (m : OrderedMap κ α) (k : κ) :
    (m.filter p).find k = (m.find k).filter (p k) := by
  refine Option.ext fun v => ?_
  rw [find_eq_some, mem_entries_filter, Option.filter_eq_some_iff, find_eq_some]

theorem find_erase (m : OrderedMap κ α) (k j : κ) :
    (m.erase k).find j = if j = k then none else m.find j := by
  rw [erase, find_filter]
  by_cases h : j = k
  · subst h
    cases m.find j <;> simp
  · cases hm : m.find j <;> simp [h]

@[simp] theorem find_erase_self (m : OrderedMap κ α) (k : κ) : (m.erase k).find k = none := by
  rw [find_erase, if_pos rfl]

theorem find_erase_of_ne (m : OrderedMap κ α) {k j : κ} (h : j ≠ k) :
    (m.erase k).find j = m.find j := by
  rw [find_erase, if_neg h]

theorem mem_keys_erase {m : OrderedMap κ α} {k j : κ} :
    j ∈ (m.erase k).keys ↔ j ≠ k ∧ j ∈ m.keys := by
  simp only [mem_keys, find_erase]
  by_cases h : j = k <;> simp [h]

theorem find_mapVals (f : α → β) (m : OrderedMap κ α) (k : κ) :
    (m.mapVals f).find k = (m.find k).map f := by
  refine Option.ext fun v => ?_
  rw [find_eq_some, Option.map_eq_some_iff]
  simp only [mapVals, List.mem_map, Prod.mk.injEq, find_eq_some]
  constructor
  · rintro ⟨⟨a, b⟩, he, rfl, rfl⟩
    exact ⟨b, he, rfl⟩
  · rintro ⟨b, he, rfl⟩
    exact ⟨(k, b), he, rfl, rfl⟩

omit [DecidableEq κ] in
@[simp] theorem keys_mapVals (f : α → β) (m : OrderedMap κ α) : (m.mapVals f).keys = m.keys := by
  simp [keys, mapVals, List.map_map, Function.comp_def]

variable [AddCommMonoid A]

def total (f : α → A) (m : OrderedMap κ α) : A := (m.entries.map fun e => f e.2).sum

/-- The measure of the value at a key, nothing where there is none. -/
def measureAt (f : α → A) (m : OrderedMap κ α) (k : κ) : A := ((m.find k).map f).getD 0

omit [DecidableEq κ] in
@[simp] theorem total_empty (f : α → A) : (empty : OrderedMap κ α).total f = 0 := rfl

private theorem upsert_sum (f : α → A) (k : κ) (v : α) (es : List (κ × α)) :
    ((upsert k v es).map fun e => f e.2).sum + ((assoc k es).map f).getD 0 =
      (es.map fun e => f e.2).sum + f v := by
  induction es with
  | nil => simp [upsert, assoc]
  | cons e es ih =>
    by_cases h : e.1 = k
    · simp only [upsert, assoc, h, if_true, List.map_cons, List.sum_cons, Option.map_some,
        Option.getD_some]
      abel
    · simp only [upsert, assoc, h, if_false, List.map_cons, List.sum_cons]
      rw [add_assoc, ih, add_assoc]

/-- A write adds the measure of the new value and takes out that of the old one. -/
theorem total_set (f : α → A) (m : OrderedMap κ α) (k : κ) (v : α) :
    (m.set k v).total f + m.measureAt f k = m.total f + f v :=
  upsert_sum f k v m.entries

private theorem filter_ne_sum (f : α → A) {es : List (κ × α)} (hn : (es.map Prod.fst).Nodup)
    (k : κ) : ((es.filter fun e => decide (e.1 ≠ k)).map fun e => f e.2).sum +
      ((assoc k es).map f).getD 0 = (es.map fun e => f e.2).sum := by
  induction es with
  | nil => simp [assoc]
  | cons e es ih =>
    rw [List.map_cons, List.nodup_cons] at hn
    by_cases h : e.1 = k
    · have hall : es.filter (fun e => decide (e.1 ≠ k)) = es := by
        rw [List.filter_eq_self]
        intro d hd
        have hne : d.1 ≠ k := fun hdk =>
          hn.1 (List.mem_map.mpr ⟨d, hd, hdk.trans h.symm⟩)
        simpa using hne
      rw [List.filter_cons_of_neg (by simp [h]), hall]
      simp [assoc, h, add_comm]
    · rw [List.filter_cons_of_pos (by simpa using h)]
      simp only [List.map_cons, List.sum_cons, assoc, h, if_false]
      rw [add_assoc, ih hn.2]

theorem total_erase (f : α → A) (m : OrderedMap κ α) (k : κ) :
    (m.erase k).total f + m.measureAt f k = m.total f :=
  filter_ne_sum f m.nodup k

omit [DecidableEq κ] in
theorem total_mapVals (f : β → A) (g : α → β) (m : OrderedMap κ α) :
    (m.mapVals g).total f = m.total fun v => f (g v) := by
  simp [total, mapVals, List.map_map, Function.comp_def]

end OrderedMap

end NorelecBot.Lib
