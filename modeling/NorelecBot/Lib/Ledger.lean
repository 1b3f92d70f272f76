import Mathlib.Algebra.Group.Hom.Defs
import Mathlib.Algebra.Order.Monoid.Defs

/-! # Runs whose steps are entered in a book

A step relation carries an entry, and a run the sum of its entries. Whatever one
step keeps under a condition on its entry, a run keeps; a quantity that moves by
what one entry says moves by what the book says.
-/

namespace NorelecBot.Lib

variable {σ F A : Type*} [AddMonoid F]

/-- A finite run, entered under the sum of what its steps are entered under. -/
inductive Booked (R : σ → F → σ → Prop) : σ → F → σ → Prop
  | refl (s : σ) : Booked R s 0 s
  | step {s t u : σ} {f g : F} : R s f t → Booked R t g u → Booked R s (f + g) u

namespace Booked

variable {R : σ → F → σ → Prop} {s t u : σ} {f g : F}

theorem single (h : R s f t) : Booked R s f t := by
  have hrun := Booked.step h (.refl t)
  rwa [add_zero] at hrun

theorem trans (h : Booked R s f t) (hnext : Booked R t g u) : Booked R s (f + g) u := by
  induction h with
  | refl s => rwa [zero_add]
  | step hstep _ ih =>
    rw [add_assoc]
    exact .step hstep (ih hnext)

/-- What every step keeps whose entry is admissible, every run with an admissible sum keeps. -/
theorem invariant_of {I : σ → Prop} {Q : F → Prop} (hQ : ∀ f g, Q (f + g) → Q f ∧ Q g)
    (hI : ∀ s f t, R s f t → Q f → I s → I t) (h : Booked R s f t) (hf : Q f) (hs : I s) : I t := by
  induction h with
  | refl s => exact hs
  | step hstep _ ih =>
    obtain ⟨hfirst, hrest⟩ := hQ _ _ hf
    exact ih hrest (hI _ _ _ hstep hfirst hs)

theorem invariant {I : σ → Prop} (hI : ∀ s f t, R s f t → I s → I t) (h : Booked R s f t) (hs : I s) :
    I t :=
  invariant_of (fun _ _ _ => ⟨trivial, trivial⟩) (fun s f t hstep (_ : True) => hI s f t hstep) h
    trivial hs

/-- A quantity every step moves by what it is entered under. -/
theorem balance [AddMonoid A] {m : σ → A} (φ : F →+ A)
    (hm : ∀ s f t, R s f t → m t = m s + φ f) (h : Booked R s f t) : m t = m s + φ f := by
  induction h with
  | refl s => rw [map_zero, add_zero]
  | step hstep _ ih => rw [ih, hm _ _ _ hstep, map_add, add_assoc]

/-- The same, along runs that keep what the steps need. -/
theorem balance_of [AddMonoid A] {m : σ → A} {I : σ → Prop} {Q : F → Prop} (φ : F →+ A)
    (hQ : ∀ f g, Q (f + g) → Q f ∧ Q g) (hI : ∀ s f t, R s f t → Q f → I s → I t)
    (hm : ∀ s f t, R s f t → Q f → I s → m t = m s + φ f) (h : Booked R s f t) (hf : Q f) (hs : I s) :
    m t = m s + φ f := by
  induction h with
  | refl s => rw [map_zero, add_zero]
  | step hstep _ ih =>
    obtain ⟨hfirst, hrest⟩ := hQ _ _ hf
    rw [ih hrest (hI _ _ _ hstep hfirst hs), hm _ _ _ hstep hfirst hs, map_add, add_assoc]

/-- What no step makes smaller than what it is entered to lose. -/
theorem loses_at_most [AddCommMonoid A] [PartialOrder A] [IsOrderedAddMonoid A] {m : σ → A} (φ : F →+ A)
    (hm : ∀ s f t, R s f t → m s ≤ m t + φ f) (h : Booked R s f t) : m s ≤ m t + φ f := by
  induction h with
  | refl s => rw [map_zero, add_zero]
  | @step s t u f g hstep _ ih =>
    calc m s ≤ m t + φ f := hm _ _ _ hstep
      _ ≤ m u + φ g + φ f := add_le_add_left ih _
      _ = m u + φ (f + g) := by rw [map_add, add_assoc, add_comm (φ g)]

end Booked

end NorelecBot.Lib
