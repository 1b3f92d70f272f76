import Mathlib.Algebra.Order.Ring.Int

/-! # Signed numbers of 64 bits

An operation on them has the exact result or none: past either end it is undefined.
-/

namespace NorelecBot.Lib.Signed

def most : ℤ := 2 ^ 63 - 1

def least : ℤ := -2 ^ 63

def Fits (number : ℤ) : Prop := least ≤ number ∧ number ≤ most

instance (number : ℤ) : Decidable (Fits number) := inferInstanceAs (Decidable (_ ∧ _))

def exact (number : ℤ) : Option ℤ := if Fits number then some number else none

@[simp] theorem exact_of_fits {number : ℤ} (h : Fits number) : exact number = some number := if_pos h

theorem exact_eq_none {number : ℤ} (h : ¬ Fits number) : exact number = none := if_neg h

/-- What goes on after an operation comes out only when the operation has a result. -/
theorem exact_bind_eq_some {α : Type} {number : ℤ} {next : ℤ → Option α} {result : α} :
    (exact number >>= next) = some result ↔ Fits number ∧ next number = some result := by
  by_cases hfits : Fits number
  · rw [exact_of_fits hfits]
    exact ⟨fun h => ⟨hfits, h⟩, And.right⟩
  · rw [exact_eq_none hfits]
    constructor
    · intro h
      cases h
    · intro h
      exact absurd h.1 hfits

/-- One after the other, all have a result or there is none. -/
theorem mapM_eq_some {α β : Type} {signed : α → Option β} {ideal : α → β} {holds : α → Prop}
    (h : ∀ x y, signed x = some y ↔ holds x ∧ y = ideal x) (inputs : List α) (outputs : List β) :
    inputs.mapM signed = some outputs ↔ (∀ x ∈ inputs, holds x) ∧ outputs = inputs.map ideal := by
  induction inputs generalizing outputs with
  | nil => simp [eq_comm]
  | cons x inputs ih =>
    rw [List.mapM_cons, Option.bind_eq_bind, Option.bind_eq_some_iff]
    constructor
    · rintro ⟨first, hfirst, hrest⟩
      obtain ⟨others, hothers, hall⟩ := Option.bind_eq_some_iff.mp hrest
      obtain ⟨hhead, rfl⟩ := (h x first).mp hfirst
      obtain ⟨htail, rfl⟩ := (ih others).mp hothers
      cases hall
      exact ⟨List.forall_mem_cons.mpr ⟨hhead, htail⟩, rfl⟩
    · rintro ⟨hholds, rfl⟩
      obtain ⟨hhead, htail⟩ := List.forall_mem_cons.mp hholds
      refine ⟨ideal x, (h x _).mpr ⟨hhead, rfl⟩, Option.bind_eq_some_iff.mpr ⟨_, (ih _).mpr ⟨htail, rfl⟩, rfl⟩⟩

theorem fits_iff_of_nonneg {number : ℤ} (h : 0 ≤ number) : Fits number ↔ number ≤ most :=
  ⟨And.right, fun hmost => ⟨le_trans (by decide) h, hmost⟩⟩

theorem fits_of_nonneg {number : ℤ} (h : 0 ≤ number) (hmost : number ≤ most) : Fits number :=
  ⟨le_trans (by decide) h, hmost⟩

end NorelecBot.Lib.Signed
