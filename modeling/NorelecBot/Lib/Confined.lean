import NorelecBot.Lib.OrderedMap

/-! # Tables that hold only some keys or some values

Whatever is set, erased, filtered or rewritten, a table stays within what it held
and what is put there.
-/

namespace NorelecBot.Lib.OrderedMap

variable {κ α β : Type} [DecidableEq κ] {wanted : κ → Prop} {held : α → Prop} {m : OrderedMap κ α}

/-- Only some keys are used. -/
def KeysIn (wanted : κ → Prop) (m : OrderedMap κ α) : Prop := ∀ key ∈ m.keys, wanted key

/-- Only some values are kept. -/
def ValsIn (held : α → Prop) (m : OrderedMap κ α) : Prop := ∀ key value, m.find key = some value → held value

omit [DecidableEq κ] in
theorem KeysIn.empty : (empty : OrderedMap κ α).KeysIn wanted := fun _ hkey => absurd hkey List.not_mem_nil

theorem KeysIn.set (h : m.KeysIn wanted) {key : κ} (hkey : wanted key) (value : α) : (m.set key value).KeysIn wanted := by
  intro other hother
  rcases mem_keys_set.mp hother with rfl | hold
  · exact hkey
  · exact h other hold

theorem KeysIn.filter (h : m.KeysIn wanted) (test : κ → α → Bool) : (m.filter test).KeysIn wanted := by
  intro key hkey
  obtain ⟨value, hvalue⟩ := mem_keys.mp hkey
  rw [find_filter] at hvalue
  exact h key (mem_keys.mpr ⟨value, Option.eq_some_of_filter_eq_some hvalue⟩)

theorem KeysIn.erase (h : m.KeysIn wanted) (key : κ) : (m.erase key).KeysIn wanted := h.filter _

omit [DecidableEq κ] in
theorem KeysIn.mapVals (h : m.KeysIn wanted) (f : α → β) : (m.mapVals f).KeysIn wanted := by
  intro key hkey
  rw [keys_mapVals] at hkey
  exact h key hkey

theorem ValsIn.set (h : m.ValsIn held) (key : κ) {value : α} (hvalue : held value) : (m.set key value).ValsIn held := by
  intro other found hfound
  rw [find_set] at hfound
  split at hfound
  · cases hfound
    exact hvalue
  · exact h other found hfound

theorem ValsIn.filter (h : m.ValsIn held) (test : κ → α → Bool) : (m.filter test).ValsIn held := by
  intro key value hvalue
  rw [find_filter] at hvalue
  exact h key value (Option.eq_some_of_filter_eq_some hvalue)

theorem ValsIn.mapVals (h : m.ValsIn held) {f : α → α} (hf : ∀ value, held value → held (f value)) :
    (m.mapVals f).ValsIn held := by
  intro key value hvalue
  rw [find_mapVals, Option.map_eq_some_iff] at hvalue
  obtain ⟨before, hbefore, rfl⟩ := hvalue
  exact hf before (h key before hbefore)

end NorelecBot.Lib.OrderedMap
