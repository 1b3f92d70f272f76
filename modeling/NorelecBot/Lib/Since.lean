import Mathlib.Data.List.Basic

/-! # What has been so since something happened

The past is a list of events, the latest first. Something has been so since
another thing happened when that one is in the past and every event after it
keeps it so.
-/

namespace NorelecBot.Lib

variable {ε : Type*} {start : List ε → ε → Prop} {keep : ε → Prop} {past : List ε} {event : ε}

/-- It began at some event, which may look at what was before it, and every event since has kept it. -/
def Since (start : List ε → ε → Prop) (keep : ε → Prop) : List ε → Prop
  | [] => False
  | event :: past => start past event ∨ (keep event ∧ Since start keep past)

@[simp] theorem since_nil : ¬ Since start keep [] := id

theorem Since.begun (h : start past event) : Since start keep (event :: past) := .inl h

theorem Since.kept (h : Since start keep past) (hkeep : keep event) : Since start keep (event :: past) :=
  .inr ⟨hkeep, h⟩

def Throughout (holds : List ε → ε → Prop) : List ε → Prop
  | [] => True
  | event :: past => holds past event ∧ Throughout holds past

instance decidableThroughout (holds : List ε → ε → Prop) [∀ past, DecidablePred (holds past)] : DecidablePred (Throughout holds)
  | [] => inferInstanceAs (Decidable True)
  | _ :: past =>
    have := decidableThroughout holds past
    inferInstanceAs (Decidable (_ ∧ Throughout holds past))

/-- What the empty past has and every event keeps, every past has. -/
theorem Throughout.invariant {holds : List ε → ε → Prop} {inv : List ε → Prop} (h : Throughout holds past)
    (hempty : inv []) (hstep : ∀ past event, holds past event → inv past → inv (event :: past)) : inv past := by
  induction past with
  | nil => exact hempty
  | cons event past ih => exact hstep past event h.1 (ih h.2)

end NorelecBot.Lib
