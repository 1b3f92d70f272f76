import Mathlib.Data.List.Count
import Mathlib.Data.List.Nodup
import Mathlib.Algebra.Order.Ring.Int

/-! # Items credited to their authors

A collection of items told apart, whose authors may be on record, beside a tally of
how many each author has in it.
-/

namespace NorelecBot.Lib

variable {α β : Type*} [DecidableEq β]

structure Tallied (items : List α) (author : α → Option β) (tally : β → ℤ) : Prop where
  distinct : items.Nodup
  listed : ∀ item owner, author item = some owner → item ∈ items
  counted : ∀ owner, tally owner = items.countP fun item => author item = some owner

namespace Tallied
variable {items : List α} {author author' : α → Option β} {tally tally' : β → ℤ} {item : α} {owner : β}

theorem empty (hauthor : ∀ item, author item = none) (htally : ∀ owner, tally owner = 0) :
    Tallied [] author tally := by
  constructor
  · exact List.nodup_nil
  · intro item owner hitem
    rw [hauthor item] at hitem
    cases hitem
  · exact htally

theorem tally_pos (h : Tallied items author tally) (howner : author item = some owner) : 0 < tally owner := by
  have hcount : 0 < items.countP fun item => author item = some owner :=
    List.countP_pos_iff.mpr ⟨item, h.listed item owner howner, by simpa using howner⟩
  rw [h.counted owner]
  exact_mod_cast hcount

/-- Whoever is credited with nothing may be forgotten. -/
theorem forget (h : Tallied items author tally) (hnone : ∀ item, author item ≠ some owner)
    (htally : ∀ other, tally' other = if other = owner then 0 else tally other) : Tallied items author tally' := by
  refine ⟨h.distinct, h.listed, fun other => ?_⟩
  rw [htally]
  by_cases hother : other = owner
  · have hzero : (items.countP fun item => author item = some owner) = 0 := by
      apply List.countP_eq_zero.mpr
      intro item _
      simpa using hnone item
    rw [if_pos hother, hother, hzero]
    rfl
  · rw [if_neg hother, h.counted]

variable [DecidableEq α]

/-- A new item is credited to whoever adds it. -/
theorem add (h : Tallied items author tally) (hnew : item ∉ items)
    (hauthor : ∀ other, author' other = if other = item then some owner else author other)
    (htally : ∀ other, tally' other = if other = owner then tally owner + 1 else tally other) :
    Tallied (items ++ [item]) author' tally' := by
  have hold (other : α) (hother : other ∈ items) : author' other = author other := by
    rw [hauthor, if_neg (ne_of_mem_of_not_mem hother hnew)]
  constructor
  · rw [List.nodup_append]
    refine ⟨h.distinct, List.nodup_singleton item, ?_⟩
    intro other hother last hlast
    rw [List.mem_singleton.mp hlast]
    exact ne_of_mem_of_not_mem hother hnew
  · intro other credited hcredited
    rw [hauthor] at hcredited
    by_cases hitem : other = item
    · rw [hitem]
      exact List.mem_append_right items List.mem_cons_self
    · rw [if_neg hitem] at hcredited
      exact List.mem_append_left _ (h.listed other credited hcredited)
  · intro credited
    have hbefore : (items.countP fun other => author' other = some credited) =
        items.countP fun other => author other = some credited := by
      apply List.countP_congr
      intro other hother
      rw [hold other hother]
    rw [List.countP_append, hbefore, List.countP_singleton, hauthor, if_pos rfl, htally]
    by_cases hcredited : credited = owner
    · subst hcredited
      simp [h.counted]
    · simp [h.counted, hcredited, Ne.symm hcredited]

/-- An item that is taken out counts for nobody any more. -/
theorem remove [BEq α] [LawfulBEq α] (h : Tallied items author tally) (hitem : item ∈ items)
    (hauthor : ∀ other, author' other = if other = item then none else author other)
    (htally : ∀ other, tally' other = if author item = some other then tally other - 1 else tally other) :
    Tallied (items.erase item) author' tally' := by
  have hgone : item ∉ items.erase item := h.distinct.not_mem_erase
  constructor
  · exact h.distinct.erase item
  · intro other credited hcredited
    rw [hauthor] at hcredited
    by_cases hother : other = item
    · rw [if_pos hother] at hcredited
      cases hcredited
    · rw [if_neg hother] at hcredited
      exact (List.mem_erase_of_ne hother).mpr (h.listed other credited hcredited)
  · intro credited
    have hrest : ((items.erase item).countP fun other => author' other = some credited) =
        (items.erase item).countP fun other => author other = some credited := by
      apply List.countP_congr
      intro other hother
      rw [hauthor, if_neg (ne_of_mem_of_not_mem hother hgone)]
    rw [hrest, List.countP_erase, htally, h.counted credited]
    by_cases hcredited : author item = some credited
    · have hpos := h.tally_pos hcredited
      rw [h.counted credited] at hpos
      simp only [hcredited, if_true, hitem, true_and, decide_true]
      omega
    · simp [hcredited]

end Tallied

end NorelecBot.Lib
