import NorelecBot.Lib.OrderedMap

/-! # Maps in the order of their keys

An entry list whose keys increase. There is one such list only for what it gives
back under each key, so two maps that give back the same are equal.
-/

namespace NorelecBot.Lib

variable {κ α β : Type*} [LT κ]

structure KeyMap (κ α : Type*) [LT κ] where
  entries : List (κ × α)
  sorted : entries.Pairwise fun d e => d.1 < e.1

namespace KeyMap

def empty : KeyMap κ α := ⟨[], List.Pairwise.nil⟩

instance : Inhabited (KeyMap κ α) := ⟨empty⟩

def keys (m : KeyMap κ α) : List κ := m.entries.map Prod.fst

/-- What a choice keeps of each entry. -/
def filterMap (f : κ → α → Option β) (m : KeyMap κ α) : KeyMap κ β where
  entries := m.entries.filterMap fun e => (f e.1 e.2).map (Prod.mk e.1)
  sorted := by
    rw [List.pairwise_filterMap]
    apply m.sorted.imp
    intro d e hlt d' hd e' he
    obtain ⟨_, -, rfl⟩ := Option.map_eq_some_iff.mp hd
    obtain ⟨_, -, rfl⟩ := Option.map_eq_some_iff.mp he
    exact hlt

def mapVals (f : α → β) (m : KeyMap κ α) : KeyMap κ β where
  entries := m.entries.map fun e => (e.1, f e.2)
  sorted := by
    rw [List.pairwise_map]
    exact m.sorted

/-- Without what is under the keys before one, taken away from the front. -/
def dropBefore [DecidableLT κ] (m : KeyMap κ α) (oldest : κ) : KeyMap κ α where
  entries := m.entries.dropWhile fun e => e.1 < oldest
  sorted := m.sorted.sublist (List.dropWhile_sublist _)

@[ext] theorem ext {m n : KeyMap κ α} (h : m.entries = n.entries) : m = n := by
  cases m
  cases n
  simpa using h

end KeyMap

namespace KeyMap

variable [DecidableEq κ]

instance [DecidableEq α] : DecidableEq (KeyMap κ α) := fun m n =>
  decidable_of_iff (m.entries = n.entries) ⟨ext, congrArg entries⟩

def find (m : KeyMap κ α) (k : κ) : Option α := assoc k m.entries

@[simp] theorem find_empty (k : κ) : (empty : KeyMap κ α).find k = none := rfl

theorem find_mapVals (f : α → β) (m : KeyMap κ α) (k : κ) : (m.mapVals f).find k = (m.find k).map f := by
  have hmap (es : List (κ × α)) : assoc k (es.map fun e => (e.1, f e.2)) = (assoc k es).map f := by
    induction es with
    | nil => rfl
    | cons e es ih =>
      rw [List.map_cons, assoc, assoc, ih]
      by_cases he : e.1 = k
      · rw [if_pos he, if_pos he]
        rfl
      · rw [if_neg he, if_neg he]
  exact hmap m.entries

end KeyMap

omit [LT κ] in
theorem assoc_eq_none [DecidableEq κ] {es : List (κ × α)} {k : κ} (h : ∀ e ∈ es, e.1 ≠ k) : assoc k es = none := by
  induction es with
  | nil => rfl
  | cons e es ih =>
    rw [assoc, if_neg (h e List.mem_cons_self), ih fun d hd => h d (List.mem_cons_of_mem e hd)]

section Insert
variable [DecidableEq κ] [DecidableLT κ]

/-- Write a key into an increasing entry list. -/
def insertKey (k : κ) (v : α) : List (κ × α) → List (κ × α)
  | [] => [(k, v)]
  | e :: es =>
    if k < e.1 then (k, v) :: e :: es
    else if k = e.1 then (k, v) :: es
    else e :: insertKey k v es

theorem mem_insertKey {k : κ} {v : α} {es : List (κ × α)} {d : κ × α} (h : d ∈ insertKey k v es) :
    d = (k, v) ∨ d ∈ es := by
  induction es with
  | nil => simpa [insertKey] using h
  | cons e es ih =>
    rw [insertKey] at h
    by_cases hlt : k < e.1
    · simpa [hlt] using h
    · by_cases heq : k = e.1
      · rw [if_neg hlt, if_pos heq] at h
        rcases List.mem_cons.mp h with h | h
        · exact .inl h
        · exact .inr (List.mem_cons_of_mem e h)
      · rw [if_neg hlt, if_neg heq] at h
        rcases List.mem_cons.mp h with h | h
        · exact .inr (h ▸ List.mem_cons_self)
        · exact (ih h).imp id (List.mem_cons_of_mem e)

theorem assoc_insertKey (k : κ) (v : α) (es : List (κ × α)) (j : κ) :
    assoc j (insertKey k v es) = if j = k then some v else assoc j es := by
  induction es with
  | nil => simp [insertKey, assoc, eq_comm]
  | cons e es ih =>
    rw [insertKey]
    by_cases hlt : k < e.1
    · simp [hlt, assoc, eq_comm]
    · by_cases heq : k = e.1
      · rw [if_neg hlt, if_pos heq, assoc, assoc, ← heq]
        by_cases hj : k = j
        · rw [if_pos hj, if_pos hj.symm]
        · rw [if_neg hj, if_neg hj, if_neg (Ne.symm hj)]
      · rw [if_neg hlt, if_neg heq, assoc, ih, assoc]
        by_cases he : e.1 = j
        · rw [if_pos he, if_pos he, if_neg fun hj => heq (hj.symm.trans he.symm)]
        · rw [if_neg he, if_neg he]

end Insert

/-- Keys are ordered one way or the other, and never both. -/
class KeyOrder (κ : Type*) [LT κ] : Prop where
  irrefl : ∀ k : κ, ¬ k < k
  trans : ∀ {j k l : κ}, j < k → k < l → j < l
  total : ∀ j k : κ, j < k ∨ j = k ∨ k < j

instance [Trans (α := κ) (· < ·) (· < ·) (· < ·)] [Std.Irrefl (α := κ) (· < ·)] [Std.Trichotomous (α := κ) (· < ·)] :
    KeyOrder κ where
  irrefl _ := Std.lt_irrefl
  trans := Std.lt_trans
  total := Std.lt_trichotomy

instance : KeyOrder ℕ := ⟨Nat.lt_irrefl, Nat.lt_trans, Nat.lt_trichotomy⟩

instance : KeyOrder ℤ := ⟨Int.lt_irrefl, Int.lt_trans, Int.lt_trichotomy⟩

variable [KeyOrder κ]

namespace KeyMap

theorem nodup_keys (m : KeyMap κ α) : m.keys.Nodup := by
  rw [keys, List.nodup_iff_pairwise_ne, List.pairwise_map]
  apply m.sorted.imp
  intro d e hlt heq
  rw [heq] at hlt
  exact KeyOrder.irrefl _ hlt

variable [DecidableEq κ]

theorem find_eq_some {m : KeyMap κ α} {k : κ} {v : α} : m.find k = some v ↔ (k, v) ∈ m.entries :=
  assoc_eq_some_iff_mem m.nodup_keys k v

theorem mem_keys {m : KeyMap κ α} {k : κ} : k ∈ m.keys ↔ ∃ v, m.find k = some v := by
  simp only [find_eq_some, keys, List.mem_map, Prod.exists, exists_and_right, exists_eq_right]

theorem find_filterMap (f : κ → α → Option β) (m : KeyMap κ α) (k : κ) :
    (m.filterMap f).find k = (m.find k).bind (f k) := by
  apply Option.ext
  intro v
  rw [find_eq_some, Option.bind_eq_some_iff, filterMap, List.mem_filterMap]
  constructor
  · rintro ⟨⟨j, w⟩, hmem, hmap⟩
    obtain ⟨u, hu, heq⟩ := Option.map_eq_some_iff.mp hmap
    cases heq
    exact ⟨w, find_eq_some.mpr hmem, hu⟩
  · rintro ⟨w, hfind, hw⟩
    exact ⟨(k, w), find_eq_some.mp hfind, by rw [hw]; rfl⟩

theorem mem_dropWhile_lt [DecidableLT κ] {es : List (κ × α)} (hsorted : es.Pairwise fun d e => d.1 < e.1) (oldest : κ)
    (e : κ × α) : e ∈ es.dropWhile (fun d => d.1 < oldest) ↔ ¬ e.1 < oldest ∧ e ∈ es := by
  induction es with
  | nil => simp
  | cons d es ih =>
    obtain ⟨hfirst, hothers⟩ := List.pairwise_cons.mp hsorted
    by_cases hold : d.1 < oldest
    · rw [List.dropWhile_cons_of_pos (by simpa using hold), ih hothers, List.mem_cons]
      have hnot : ¬ e.1 < oldest → e ≠ d := by
        rintro hlate rfl
        exact hlate hold
      tauto
    · rw [List.dropWhile_cons_of_neg (by simpa using hold), List.mem_cons]
      have hlate : e = d ∨ e ∈ es → ¬ e.1 < oldest := by
        rintro (rfl | hin) hlt
        · exact hold hlt
        · exact hold (KeyOrder.trans (hfirst _ hin) hlt)
      tauto

theorem find_dropBefore [DecidableLT κ] (m : KeyMap κ α) (oldest k : κ) :
    (m.dropBefore oldest).find k = if k < oldest then none else m.find k := by
  apply Option.ext
  intro v
  rw [find_eq_some, dropBefore, mem_dropWhile_lt m.sorted]
  by_cases hold : k < oldest
  · simp [hold]
  · simp [hold, find_eq_some]

/-- Two increasing lists with the same entries are the same list. -/
theorem ext_find {m n : KeyMap κ α} (h : ∀ k, m.find k = n.find k) : m = n := by
  have hperm : m.entries.Perm n.entries := by
    rw [List.perm_ext_iff_of_nodup (List.Nodup.of_map Prod.fst m.nodup_keys) (List.Nodup.of_map Prod.fst n.nodup_keys)]
    intro e
    rw [← find_eq_some, ← find_eq_some, h]
  apply ext
  apply hperm.eq_of_pairwise _ m.sorted n.sorted
  intro d e _ _ hde hed
  exact absurd (KeyOrder.trans hde hed) (KeyOrder.irrefl _)

variable [DecidableLT κ]

theorem insertKey_pairwise (k : κ) (v : α) {es : List (κ × α)} (h : es.Pairwise fun d e => d.1 < e.1) :
    (insertKey k v es).Pairwise fun d e => d.1 < e.1 := by
  induction es with
  | nil => simp [insertKey]
  | cons e es ih =>
    rw [List.pairwise_cons] at h
    rw [insertKey]
    by_cases hlt : k < e.1
    · rw [if_pos hlt, List.pairwise_cons, List.pairwise_cons]
      refine ⟨fun d hd => ?_, h⟩
      rcases List.mem_cons.mp hd with rfl | hd
      · exact hlt
      · exact KeyOrder.trans hlt (h.1 d hd)
    · rw [if_neg hlt]
      by_cases heq : k = e.1
      · rw [if_pos heq, List.pairwise_cons, heq]
        exact h
      · rw [if_neg heq, List.pairwise_cons]
        refine ⟨fun d hd => ?_, ih h.2⟩
        rcases mem_insertKey hd with rfl | hd
        · rcases KeyOrder.total k e.1 with hk | hk | hk
          · exact absurd hk hlt
          · exact absurd hk heq
          · exact hk
        · exact h.1 d hd

def set (m : KeyMap κ α) (k : κ) (v : α) : KeyMap κ α := ⟨insertKey k v m.entries, insertKey_pairwise k v m.sorted⟩

/-- Write under a key what a change makes of what is there, or of nothing. -/
def alter (m : KeyMap κ α) (k : κ) (f : Option α → α) : KeyMap κ α := m.set k (f (m.find k))

def ofKeys (ks : List κ) : KeyMap κ Unit := ks.foldl (fun m k => m.set k ()) empty

theorem find_set (m : KeyMap κ α) (k : κ) (v : α) (j : κ) : (m.set k v).find j = if j = k then some v else m.find j :=
  assoc_insertKey k v m.entries j

theorem find_alter (m : KeyMap κ α) (k : κ) (f : Option α → α) (j : κ) :
    (m.alter k f).find j = if j = k then some (f (m.find k)) else m.find j :=
  find_set m k (f (m.find k)) j

theorem set_set (m : KeyMap κ α) (k : κ) (v w : α) : (m.set k v).set k w = m.set k w := by
  apply ext_find
  intro j
  rw [find_set, find_set, find_set]
  by_cases hj : j = k
  · rw [if_pos hj, if_pos hj]
  · rw [if_neg hj, if_neg hj, if_neg hj]

/-- Written entry by entry, each key once. -/
theorem find_foldl_set_of_nodup {es : List (κ × α)} (hnodup : (es.map Prod.fst).Nodup) (m : KeyMap κ α) (k : κ) :
    (es.foldl (fun m e => m.set e.1 e.2) m).find k = (assoc k es).or (m.find k) := by
  induction es generalizing m with
  | nil => rfl
  | cons e es ih =>
    rw [List.map_cons, List.nodup_cons] at hnodup
    rw [List.foldl_cons, ih hnodup.2, find_set, assoc]
    by_cases hk : e.1 = k
    · have habsent : assoc k es = none := by
        apply assoc_eq_none
        rintro d hd rfl
        exact hnodup.1 (hk ▸ List.mem_map_of_mem hd)
      rw [if_pos hk, habsent, if_pos hk.symm]
      rfl
    · rw [if_neg hk, if_neg (Ne.symm hk)]

theorem find_foldl_set {es : List (κ × α)} (hsorted : es.Pairwise fun d e => d.1 < e.1) (m : KeyMap κ α) (k : κ) :
    (es.foldl (fun m e => m.set e.1 e.2) m).find k = (assoc k es).or (m.find k) :=
  find_foldl_set_of_nodup (nodup_keys ⟨es, hsorted⟩) m k

theorem foldl_set_entries (m : KeyMap κ α) : m.entries.foldl (fun m e => m.set e.1 e.2) empty = m := by
  apply ext_find
  intro k
  rw [find_foldl_set m.sorted, find_empty, Option.or_none]
  rfl

/-- In whatever order they are written. -/
theorem foldl_set_perm {es : List (κ × α)} {m : KeyMap κ α} (h : es.Perm m.entries) :
    es.foldl (fun m e => m.set e.1 e.2) empty = m := by
  have hnodup : (es.map Prod.fst).Nodup := (h.map Prod.fst).nodup_iff.mpr m.nodup_keys
  apply ext_find
  intro k
  apply Option.ext
  intro v
  rw [find_foldl_set_of_nodup hnodup, find_empty, Option.or_none, assoc_eq_some_iff_mem hnodup, h.mem_iff,
    ← find_eq_some]

/-- Writing under one key adds to what all entries come to just what it adds under that key. -/
theorem flatMap_alter_perm {γ : Type*} (m : KeyMap κ α) (k : κ) (f : Option α → α) (g : κ × α → List γ) (more : List γ)
    (h : (g (k, f (m.find k))).Perm (((m.find k).elim [] fun v => g (k, v)) ++ more)) :
    ((m.alter k f).entries.flatMap g).Perm (m.entries.flatMap g ++ more) := by
  have hinsert (v : α) (es : List (κ × α)) (hsorted : es.Pairwise fun d e => d.1 < e.1)
      (hv : (g (k, v)).Perm (((assoc k es).elim [] fun v => g (k, v)) ++ more)) :
      ((insertKey k v es).flatMap g).Perm (es.flatMap g ++ more) := by
    induction es with
    | nil => simpa [insertKey, assoc] using hv
    | cons e es ih =>
      rw [List.pairwise_cons] at hsorted
      rw [insertKey]
      by_cases hlt : k < e.1
      · have habsent : assoc k (e :: es) = none := by
          apply assoc_eq_none
          rintro d hd rfl
          rcases List.mem_cons.mp hd with rfl | hd
          · exact KeyOrder.irrefl _ hlt
          · exact KeyOrder.irrefl _ (KeyOrder.trans hlt (hsorted.1 d hd))
        rw [habsent] at hv
        rw [if_pos hlt, List.flatMap_cons]
        exact (hv.append_right _).trans List.perm_append_comm
      · rw [if_neg hlt]
        by_cases heq : k = e.1
        · rw [assoc, if_pos heq.symm] at hv
          rw [if_pos heq, List.flatMap_cons, List.flatMap_cons]
          subst heq
          refine (hv.append_right _).trans ?_
          rw [List.append_assoc, List.append_assoc]
          exact List.perm_append_comm.append_left _
        · rw [assoc, if_neg (Ne.symm heq)] at hv
          rw [if_neg heq, List.flatMap_cons, List.flatMap_cons, List.append_assoc]
          exact (ih hsorted.2 hv).append_left _
  exact hinsert _ m.entries m.sorted h

theorem mem_keys_ofKeys {ks : List κ} {k : κ} : k ∈ (ofKeys ks).keys ↔ k ∈ ks := by
  have hfold (m : KeyMap κ Unit) : k ∈ (ks.foldl (fun m k => m.set k ()) m).keys ↔ k ∈ m.keys ∨ k ∈ ks := by
    induction ks generalizing m with
    | nil => simp
    | cons j ks ih =>
      rw [List.foldl_cons, ih, mem_keys, mem_keys]
      simp only [find_set, List.mem_cons]
      by_cases hk : k = j <;> simp [hk]
  rw [ofKeys, hfold]
  simp [empty, keys]

end KeyMap

end NorelecBot.Lib
