import NorelecBot.Identity

/-! # What a hold of the place is worth

Second by second, at the percent the ⚡ he came in with set; a ⚡ lost inside
closes the account up to that instant and lowers the percent from there on.
-/

namespace NorelecBot
open Lib

/-- The zodiac does not count: every day is worth the same to everybody. -/
def dayPercent : ℤ := 100

/-- What a hold was worth: the seconds it lasted, times the ⚡, times the house of the day. -/
structure Settlement where
  earned : ℤ := 0
  lightning : ℤ := 0
  zodiacPercent : ℤ := 100
  deriving DecidableEq, Repr

/-- The seconds since the hold was last counted. -/
def uncounted (hold : Holder) (now : ℤ) : ℤ :=
  if now > max hold.since hold.countedFrom then now - max hold.since hold.countedFrom else 0

def byTheDay (earned : ℤ) : ℤ :=
  (earned.tdiv 100) * dayPercent + ((earned.tmod 100) * dayPercent).tdiv 100

/-- What the hold made since it was last counted, without paying it. -/
def holdValue (hold : Holder) (now : ℤ) : Except Failure Settlement :=
  if hold.lightningPercent > 100 then
    if uncounted hold now > int64Max.tdiv hold.lightningPercent then .error .overflow
    else .ok
      { earned := byTheDay ((uncounted hold now * hold.lightningPercent).tdiv 100)
        lightning := hold.lightningPercent
        zodiacPercent := dayPercent }
  else .ok { earned := byTheDay (uncounted hold now), zodiacPercent := dayPercent }

/-- What was put aside when a ⚡ was lost is paid with the rest. -/
def settleHold (state : ConquisterState) (hold : Holder) (now : ℤ) :
    Except Failure (Settlement × ConquisterState) :=
  match holdValue hold now with
  | .error failure => .error failure
  | .ok value =>
    let settled := { value with earned := value.earned + hold.banked }
    if counter state.scores hold.username > 0 ∧
        settled.earned > int64Max - counter state.scores hold.username then .error .overflow
    else .ok (settled, { state with
      scores := state.scores.set hold.username (counter state.scores hold.username + settled.earned) })

/-- Takes the holder out of the place, paying what the hold earned. -/
def leavePlace (state : ConquisterState) (now : ℤ) : Except Failure (Settlement × ConquisterState) :=
  match state.current with
  | none => .ok ({}, state)
  | some holder => settleHold { state with current := none } holder now

/-- A line meant for home, written from the place, takes him home first. -/
structure Departure where
  left : Bool := false
  earned : ℤ := 0
  lightning : ℤ := 0
  zodiacPercent : ℤ := 100
  deriving DecidableEq, Repr

def goHome (state : ConquisterState) (player : Str) (now : ℤ) :
    Except Failure (Departure × ConquisterState) :=
  if whereabouts state player ≠ .conquister then .ok ({}, state)
  else match leavePlace state now with
    | .error failure => .error failure
    | .ok (settled, away) =>
      .ok ({ left := true, earned := settled.earned, lightning := settled.lightning,
             zodiacPercent := settled.zodiacPercent }, away)

/-- How many of the hold's ⚡ are gone: what is left and the percent it stands for. -/
def Holder.withBolts (hold : Holder) (left : ℤ) : Holder :=
  { hold with
    bolts := left
    lightningPercent :=
      if left > 0 then 100 + left * (hold.lightningPercent - 100).tdiv hold.bolts else 0 }

/-- What it made so far is put aside, and it is counted from now on. -/
def Holder.bank (hold : Holder) (earned now : ℤ) : Holder :=
  { hold with banked := hold.banked + earned, countedFrom := max now hold.since }

/-- The holder who lost a ⚡ he came in with keeps what the hold made so far and earns less from now
on. Only the ones he has on him count. -/
def loseBolts [SlotCodec] (state : ConquisterState) (now : ℤ) : Except Failure ConquisterState :=
  match state.current with
  | none => .ok state
  | some hold =>
    if hold.bolts ≤ 0 ∨ carriedCopies state hold.username .bolt ≥ hold.bolts then .ok state
    else match holdValue hold now with
      | .error failure => .error failure
      | .ok value =>
        .ok { state with
          current := some ((hold.bank value.earned now).withBolts (carriedCopies state hold.username .bolt)) }

@[simp] theorem byTheDay_eq (earned : ℤ) : byTheDay earned = earned := by
  have hsplit := Int.mul_tdiv_add_tmod earned 100
  have hback : (earned.tmod 100 * 100).tdiv 100 = earned.tmod 100 :=
    Int.mul_tdiv_cancel _ (by norm_num)
  rw [byTheDay, dayPercent, hback]
  omega

theorem uncounted_nonneg (hold : Holder) (now : ℤ) : 0 ≤ uncounted hold now := by
  rw [uncounted]
  split <;> omega

/-- Losing a ⚡ changes what the hold makes and nothing else: the same player holds the place. -/
theorem loseBolts_current [SlotCodec] {s t : ConquisterState} {now : ℤ} (h : loseBolts s now = .ok t) :
    ∃ current, t = { s with current := current } ∧ ∀ hold, current = some hold →
      ∃ before, s.current = some before ∧ before.username = hold.username := by
  have hsame : ∃ current, s = { s with current := current } ∧ ∀ hold, current = some hold →
      ∃ before, s.current = some before ∧ before.username = hold.username :=
    ⟨s.current, rfl, fun hold hhold => ⟨hold, hhold, rfl⟩⟩
  rw [loseBolts] at h
  split at h
  · cases h
    exact hsame
  · rename_i hold hheld
    split at h
    · cases h
      exact hsame
    · split at h
      · cases h
      · cases h
        refine ⟨_, rfl, fun after hafter => ⟨hold, hheld, ?_⟩⟩
        cases hafter
        rfl

end NorelecBot
