import Mathlib.Algebra.Group.Basic

/-! # A meter that is read out whenever its rate changes

Time goes by at a rate; what it came to so far is put aside when the rate
changes. Whenever it is read, the meter shows the sum of what each stretch was
worth.
-/

namespace NorelecBot.Lib

structure Meter (T ρ A : Type*) where
  since : T
  rate : ρ
  banked : A

section
variable {T ρ A : Type*} [AddGroup T] [AddMonoid A] (worth : ρ → T → A)

def Meter.read (meter : Meter T ρ A) (now : T) : A := meter.banked + worth meter.rate (now - meter.since)

def Meter.change (meter : Meter T ρ A) (now : T) (rate : ρ) : Meter T ρ A := ⟨now, rate, meter.read worth now⟩

def Meter.follow (meter : Meter T ρ A) (changes : List (T × ρ)) : Meter T ρ A :=
  changes.foldl (fun meter change => meter.change worth change.1 change.2) meter

/-- Stretch by stretch, from a time and a rate on. -/
def bill (since : T) (rate : ρ) : List (T × ρ) → T → A
  | [], now => worth rate (now - since)
  | change :: changes, now => worth rate (change.1 - since) + bill change.1 change.2 changes now

theorem Meter.read_follow (meter : Meter T ρ A) (changes : List (T × ρ)) (now : T) :
    (meter.follow worth changes).read worth now =
      meter.banked + bill worth meter.since meter.rate changes now := by
  induction changes generalizing meter with
  | nil => rfl
  | cons change changes ih =>
    have hrest := ih (meter.change worth change.1 change.2)
    rw [bill, ← add_assoc]
    exact hrest

end

/-- The readings that are lower than every one before. -/
def falls {T ρ : Type*} [LT ρ] [DecidableLT ρ] (rate : ρ) : List (T × ρ) → List (T × ρ)
  | [] => []
  | reading :: readings =>
    if reading.2 < rate then reading :: falls reading.2 readings else falls rate readings

section
variable {T ρ A : Type*} [AddGroup T] [AddMonoid A] [LT ρ] [DecidableLT ρ] (worth : ρ → T → A)

/-- The meter slows down whenever a reading is lower. -/
def Meter.watch (meter : Meter T ρ A) (readings : List (T × ρ)) : Meter T ρ A :=
  meter.follow worth (falls meter.rate readings)

theorem Meter.watch_cons (meter : Meter T ρ A) (reading : T × ρ) (readings : List (T × ρ)) :
    meter.watch worth (reading :: readings) =
      if reading.2 < meter.rate then (meter.change worth reading.1 reading.2).watch worth readings
      else meter.watch worth readings := by
  rw [watch, falls]
  split <;> rfl

theorem Meter.watch_append (meter : Meter T ρ A) (first others : List (T × ρ)) :
    meter.watch worth (first ++ others) = (meter.watch worth first).watch worth others := by
  induction first generalizing meter with
  | nil => rfl
  | cons reading readings ih =>
    rw [List.cons_append, watch_cons, watch_cons]
    split
    · exact ih _
    · exact ih _

theorem Meter.watch_since_le [LE T] {meter : Meter T ρ A} {readings : List (T × ρ)} {now : T}
    (hsince : meter.since ≤ now) (h : ∀ reading ∈ readings, reading.1 ≤ now) :
    (meter.watch worth readings).since ≤ now := by
  induction readings generalizing meter with
  | nil => exact hsince
  | cons reading readings ih =>
    have hrest : ∀ other ∈ readings, other.1 ≤ now := fun other hother => h other (List.mem_cons_of_mem _ hother)
    rw [watch_cons]
    split
    · exact ih (h reading List.mem_cons_self) hrest
    · exact ih hsince hrest

end

end NorelecBot.Lib
