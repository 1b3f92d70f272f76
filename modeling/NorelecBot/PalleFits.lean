import NorelecBot.ArrivalPassages
import NorelecBot.Commands
import NorelecBot.Eggs
import NorelecBot.Price

/-! # Palle on signed 64-bit numbers

What is added up, multiplied and taken away of the palle, as the machine does it:
an operation has the exact result, or nothing is said of what comes after it. Each
part of the game comes out as it should just while its own sums stay below the top.
-/

namespace NorelecBot
open Lib Lib.Signed

def uncountedSigned (hold : Holder) (now : ℤ) : Option ℤ :=
  if now > max hold.since hold.countedFrom then exact (now - max hold.since hold.countedFrom) else some 0

def byTheDaySigned (earned : ℤ) : Option ℤ := do
  let hundreds ← exact (earned.tdiv 100 * dayPercent)
  let rest ← exact (earned.tmod 100 * dayPercent)
  exact (hundreds + rest.tdiv 100)

def holdValueSigned (hold : Holder) (now : ℤ) : Option (Except Failure Settlement) := do
  let seconds ← uncountedSigned hold now
  if hold.lightningPercent > 100 then
    if seconds > int64Max.tdiv hold.lightningPercent then return .error .overflow
    else
      let lit ← exact (seconds * hold.lightningPercent)
      let earned ← byTheDaySigned (lit.tdiv 100)
      return .ok { earned := earned, lightning := hold.lightningPercent, zodiacPercent := dayPercent }
  else
    let earned ← byTheDaySigned seconds
    return .ok { earned := earned, zodiacPercent := dayPercent }

/-- Whether the score has no room for what was earned; a score of nothing is not asked. -/
def crowdedSigned (score earned : ℤ) : Option Bool :=
  if score > 0 then do
    let room ← exact (int64Max - score)
    return earned > room
  else some false

def settleHoldSigned (state : ConquisterState) (hold : Holder) (now : ℤ) :
    Option (Except Failure (Settlement × ConquisterState)) := do
  let value ← holdValueSigned hold now
  match value with
  | .error failure => return .error failure
  | .ok value =>
    let earned ← exact (value.earned + hold.banked)
    let crowded ← crowdedSigned (counter state.scores hold.username) earned
    if crowded then return .error .overflow
    else
      let score ← exact (counter state.scores hold.username + earned)
      return .ok ({ value with earned := earned }, { state with scores := state.scores.set hold.username score })

theorem uncountedSigned_eq {hold : Holder} {now : ℤ} (h : uncounted hold now ≤ int64Max) :
    uncountedSigned hold now = some (uncounted hold now) := by
  have hnonneg := uncounted_nonneg hold now
  rw [uncountedSigned]
  rw [uncounted] at h hnonneg ⊢
  by_cases hlater : now > max hold.since hold.countedFrom
  · rw [if_pos hlater] at h hnonneg
    rw [if_pos hlater, if_pos hlater, exact_of_fits (fits_of_nonneg hnonneg h)]
  · rw [if_neg hlater, if_neg hlater]

theorem uncountedSigned_eq_none {hold : Holder} {now : ℤ} (h : int64Max < uncounted hold now) :
    uncountedSigned hold now = none := by
  rw [uncounted] at h
  by_cases hlater : now > max hold.since hold.countedFrom
  · rw [if_pos hlater] at h
    rw [uncountedSigned, if_pos hlater]
    apply exact_eq_none
    intro hfits
    exact absurd hfits.2 (not_le.mpr h)
  · rw [if_neg hlater] at h
    exact absurd h (by decide)

theorem byTheDaySigned_eq {earned : ℤ} (h : 0 ≤ earned) (hmost : earned ≤ int64Max) :
    byTheDaySigned earned = some (byTheDay earned) := by
  have hdiv : earned.tdiv 100 = earned / 100 := Int.tdiv_eq_ediv_of_nonneg h
  have hmod : earned.tmod 100 = earned % 100 := Int.tmod_eq_emod_of_nonneg h
  have hback : (earned % 100 * 100).tdiv 100 = earned % 100 := Int.mul_tdiv_cancel _ (by decide)
  have hmax : int64Max = most := rfl
  have hhundreds : Fits (earned / 100 * 100) := fits_of_nonneg (by omega) (by omega)
  have hrest : Fits (earned % 100 * 100) := by
    apply fits_of_nonneg (by omega)
    have hsmall : (9900 : ℤ) ≤ most := by decide
    omega
  have hsum : Fits (earned / 100 * 100 + earned % 100) := fits_of_nonneg (by omega) (by omega)
  simp only [byTheDaySigned, byTheDay, dayPercent, hdiv, hmod, exact_of_fits hhundreds, exact_of_fits hrest, hback,
    Option.bind_eq_bind, Option.bind_some, exact_of_fits hsum]

/-- What a hold made since it was last counted, if it does not throw. -/
def made (hold : Holder) (now : ℤ) : ℤ :=
  if hold.lightningPercent > 100 then (uncounted hold now * hold.lightningPercent).tdiv 100 else uncounted hold now

/-- The seconds are too many to be multiplied, which is noticed. -/
def Unmultiplied (hold : Holder) (now : ℤ) : Prop :=
  hold.lightningPercent > 100 ∧ uncounted hold now > int64Max.tdiv hold.lightningPercent

/-- The seconds fit, and so does what they made with what was put aside. -/
def HoldFits (hold : Holder) (now : ℤ) : Prop :=
  uncounted hold now ≤ int64Max ∧ (Unmultiplied hold now ∨ made hold now + hold.banked ≤ int64Max)

theorem holdValueSigned_eq {hold : Holder} {now : ℤ} (h : uncounted hold now ≤ int64Max) :
    holdValueSigned hold now = some (holdValue hold now) := by
  have hnonneg := uncounted_nonneg hold now
  rw [holdValueSigned, holdValue, uncountedSigned_eq h]
  by_cases hlit : hold.lightningPercent > 100
  · by_cases hpast : uncounted hold now > int64Max.tdiv hold.lightningPercent
    · simp [hlit, hpast]
    · have hproduct : uncounted hold now * hold.lightningPercent ≤ int64Max := by
        rw [passes_iff (by omega)] at hpast
        exact not_lt.mp hpast
      have hpositive : 0 ≤ uncounted hold now * hold.lightningPercent := mul_nonneg hnonneg (by omega)
      have hless : (uncounted hold now * hold.lightningPercent).tdiv 100 ≤ int64Max :=
        le_trans (Int.tdiv_le_self _ hpositive) hproduct
      simp [hlit, hpast, exact_of_fits (fits_of_nonneg hpositive hproduct),
        byTheDaySigned_eq (Int.tdiv_nonneg hpositive (by decide)) hless]
  · simp [hlit, byTheDaySigned_eq hnonneg h]

theorem holdValue_unmultiplied {hold : Holder} {now : ℤ} (h : Unmultiplied hold now) :
    holdValue hold now = .error .overflow := by
  rw [holdValue, if_pos h.1, if_pos h.2]

theorem holdValue_made {hold : Holder} {now : ℤ} (h : ¬Unmultiplied hold now) :
    ∃ value, holdValue hold now = .ok value ∧ value.earned = made hold now := by
  rw [holdValue, made]
  by_cases hlit : hold.lightningPercent > 100
  · have hfew : ¬uncounted hold now > int64Max.tdiv hold.lightningPercent := fun hmany => h ⟨hlit, hmany⟩
    rw [if_pos hlit, if_neg hfew, if_pos hlit]
    exact ⟨_, rfl, byTheDay_eq _⟩
  · rw [if_neg hlit, if_neg hlit]
    exact ⟨_, rfl, byTheDay_eq _⟩

theorem made_nonneg (hold : Holder) (now : ℤ) : 0 ≤ made hold now := by
  have hnonneg := uncounted_nonneg hold now
  rw [made]
  by_cases hlit : hold.lightningPercent > 100
  · rw [if_pos hlit]
    exact Int.tdiv_nonneg (mul_nonneg hnonneg (by omega)) (by decide)
  · rw [if_neg hlit]
    exact hnonneg

theorem crowdedSigned_eq {score earned : ℤ} (hmost : score ≤ int64Max) :
    crowdedSigned score earned = some (decide (score > 0 ∧ earned > int64Max - score)) := by
  have hmax : int64Max = most := rfl
  rw [crowdedSigned]
  by_cases hsome : score > 0
  · have hroom : Fits (int64Max - score) := fits_of_nonneg (by omega) (by omega)
    simp [hsome, exact_of_fits hroom]
  · simp [hsome]

/-- What the palle of the game are when nothing went wrong. -/
def Amount (palle : ℤ) : Prop := 0 ≤ palle ∧ palle ≤ int64Max

instance (palle : ℤ) : Decidable (Amount palle) := inferInstanceAs (Decidable (_ ∧ _))

/-- The pay of a hold is guarded where it meets the score, and nowhere before. -/
theorem settleHoldSigned_eq_none (state : ConquisterState) {hold : Holder} {now : ℤ} (h : ¬HoldFits hold now) :
    settleHoldSigned state hold now = none := by
  have hmade := made_nonneg hold now
  by_cases hseconds : uncounted hold now ≤ int64Max
  · have hun : ¬Unmultiplied hold now := fun hthrown => h ⟨hseconds, .inl hthrown⟩
    have hpast : ¬made hold now + hold.banked ≤ int64Max := fun hfits => h ⟨hseconds, .inr hfits⟩
    obtain ⟨value, hvalue, hearned⟩ := holdValue_made hun
    rw [settleHoldSigned, holdValueSigned_eq hseconds, hvalue]
    simp only [Option.bind_eq_bind, Option.bind_some, hearned]
    rw [exact_eq_none fun hfits => hpast hfits.2, Option.bind_none]
  · rw [settleHoldSigned, holdValueSigned, uncountedSigned_eq_none (not_le.mp hseconds)]
    rfl

section
variable {state : ConquisterState} {hold : Holder} (now : ℤ) (hbanked : 0 ≤ hold.banked)
  (hscore : Amount (counter state.scores hold.username))
include hbanked hscore

theorem settleHoldSigned_eq (h : HoldFits hold now) :
    settleHoldSigned state hold now = some (settleHold state hold now) := by
  have hmade := made_nonneg hold now
  have hleast := hscore.1
  have hmax : int64Max = most := rfl
  rw [settleHoldSigned, settleHold, holdValueSigned_eq h.1]
  by_cases hun : Unmultiplied hold now
  · rw [holdValue_unmultiplied hun]
    rfl
  · have hfits : made hold now + hold.banked ≤ int64Max := h.2.resolve_left hun
    obtain ⟨value, hvalue, hearned⟩ := holdValue_made hun
    rw [hvalue]
    simp only [Option.bind_eq_bind, Option.bind_some, hearned]
    rw [exact_of_fits (fits_of_nonneg (by omega) hfits), Option.bind_some, crowdedSigned_eq hscore.2, Option.bind_some]
    by_cases hcrowded : counter state.scores hold.username > 0 ∧
        made hold now + hold.banked > int64Max - counter state.scores hold.username
    · simp [hcrowded]
    · have hsum : Fits (counter state.scores hold.username + (made hold now + hold.banked)) :=
        fits_of_nonneg (by omega) (by omega)
      rw [if_neg hcrowded, if_neg (by simpa using hcrowded), exact_of_fits hsum]
      rfl

/-- Who is paid for a hold that fits is left with palle that do. -/
theorem settleHold_amounts (h : HoldFits hold now) {settled : Settlement} {after : ConquisterState}
    (hafter : settleHold state hold now = .ok (settled, after)) (player : Str)
    (hplayer : Amount (counter state.scores player)) : Amount (counter after.scores player) := by
  have hmade := made_nonneg hold now
  by_cases hun : Unmultiplied hold now
  · rw [settleHold, holdValue_unmultiplied hun] at hafter
    cases hafter
  · have hfits : made hold now + hold.banked ≤ int64Max := h.2.resolve_left hun
    obtain ⟨value, hvalue, hearned⟩ := holdValue_made hun
    rw [settleHold, hvalue] at hafter
    simp only [hearned] at hafter
    by_cases hcrowded : counter state.scores hold.username > 0 ∧
        made hold now + hold.banked > int64Max - counter state.scores hold.username
    · rw [if_pos hcrowded] at hafter
      cases hafter
    · rw [if_neg hcrowded] at hafter
      cases hafter
      have hleast := hscore.1
      rw [counter_set]
      by_cases hhis : player = hold.username
      · rw [if_pos hhis]
        exact ⟨by omega, by omega⟩
      · rw [if_neg hhis]
        exact hplayer

theorem settleHoldSigned_iff :
    settleHoldSigned state hold now = some (settleHold state hold now) ↔ HoldFits hold now := by
  by_cases h : HoldFits hold now
  · exact iff_of_true (settleHoldSigned_eq now hbanked hscore h) h
  · rw [settleHoldSigned_eq_none state h]
    exact iff_of_false (Option.some_ne_none _).symm h

end

def deliverPalleSigned (state : ConquisterState) (index : ℕ) (raid : Raid) : Option ConquisterState :=
  if raid.gift > 0 then do
    let score ← exact (counter state.scores raid.target + raid.gift)
    return onRide { state with scores := state.scores.set raid.target score } index (·.withoutGift)
  else some state

theorem deliverPalleSigned_iff {state : ConquisterState} (index : ℕ) {raid : Raid}
    (hscore : Amount (counter state.scores raid.target)) (hgift : Amount raid.gift) :
    deliverPalleSigned state index raid = some (deliverPalle state index raid) ↔
      counter state.scores raid.target + raid.gift ≤ int64Max := by
  rw [deliverPalleSigned, deliverPalle]
  by_cases hsome : raid.gift > 0
  · rw [if_pos hsome, if_pos hsome, exact_bind_eq_some, fits_iff_of_nonneg (add_nonneg hscore.1 hgift.1)]
    exact and_iff_left rfl
  · have hnone : raid.gift = 0 := le_antisymm (not_lt.mp hsome) hgift.1
    rw [if_neg hsome, if_neg hsome, hnone, add_zero]
    exact iff_of_true rfl hscore.2

def bringPalleSigned (state : ConquisterState) (raid : Raid) : Option ConquisterState := do
  let brought ← exact (raid.loot + raid.gift)
  if brought > 0 then
    let score ← exact (counter state.scores raid.raider + brought)
    return { state with scores := state.scores.set raid.raider score }
  else return state

theorem bringPalleSigned_iff {state : ConquisterState} {raid : Raid}
    (hscore : Amount (counter state.scores raid.raider)) (hloot : Amount raid.loot) (hgift : Amount raid.gift) :
    bringPalleSigned state raid = some (bringPalle state raid) ↔
      counter state.scores raid.raider + (raid.loot + raid.gift) ≤ int64Max := by
  have hbrought : 0 ≤ raid.loot + raid.gift := add_nonneg hloot.1 hgift.1
  have hmax : int64Max = most := rfl
  rw [bringPalleSigned, bringPalle, exact_bind_eq_some, fits_iff_of_nonneg hbrought]
  by_cases hsome : raid.loot + raid.gift > 0
  · rw [if_pos hsome, if_pos hsome, exact_bind_eq_some, fits_iff_of_nonneg (add_nonneg hscore.1 hbrought)]
    constructor
    · rintro ⟨-, hfits, -⟩
      exact hfits
    · intro hfits
      have hless := hscore.1
      exact ⟨by omega, hfits, rfl⟩
  · rw [if_neg hsome, if_neg hsome]
    have hnone : raid.loot + raid.gift = 0 := le_antisymm (not_lt.mp hsome) hbrought
    rw [hnone, add_zero]
    exact iff_of_true ⟨by decide, rfl⟩ hscore.2

def lootSigned [Clock] (state : ConquisterState) (raid : Raid) (event : RaidEvent) (distance now : ℤ)
    (rules : RaidRules) : Option RaidEvent := do
  let theirs := counter state.scores raid.target
  let walked := if rules.lootDivisor > 0 then distance.tdiv rules.lootDivisor else distance
  let golden := 0 ≤ rules.goldenHour && Clock.localHour now = rules.goldenHour
  let paid ← exact (walked * dayPercent)
  let carried ← exact (paid.tdiv dayPercent * (if golden then 2 else 1))
  let taken := min theirs carried
  let pleaded := upToAll (houseCopies state raid.target .pleading) rules.pleadingPercent
  let shares ← exact (taken * pleaded)
  let left ← exact (taken - shares.tdiv 100)
  return { event with
    distance := distance
    raiderPercent := dayPercent
    targetPercent := dayPercent
    golden := golden
    pleadedPercent := pleaded
    spared := shares.tdiv 100
    loot := left }

def takeLootSigned (state : ConquisterState) (index : ℕ) (target : Str) (amount : ℤ) : Option ConquisterState := do
  if amount > 0 then
    let left ← exact (counter state.scores target - amount)
    return onRide { state with scores := state.scores.set target left } index (·.withLoot amount)
  else return onRide state index (·.withLoot amount)

/-- The road between any two on the plane is far shorter than a number can be. -/
def longestRoad : ℤ := 10 ^ 11

theorem coordinatesOf_range (id : ℤ) :
    (0 ≤ (Position.coordinatesOf id).x ∧ (Position.coordinatesOf id).x < Position.planeSide) ∧
      0 ≤ (Position.coordinatesOf id).y ∧ (Position.coordinatesOf id).y < Position.planeSide := by
  have hids : Position.ids = 10000000000 := rfl
  have hside : Position.planeSide = 100000 := rfl
  have hfolded : 0 ≤ id.tmod Position.ids + Position.ids := by
    have hleast := Int.lt_tmod_of_pos id (show 0 < Position.ids by decide)
    omega
  have hplace := Int.emod_lt_of_pos (id.tmod Position.ids + Position.ids) (show 0 < Position.ids by decide)
  have hnonneg := Int.emod_nonneg (id.tmod Position.ids + Position.ids) (show Position.ids ≠ 0 by decide)
  simp only [Position.coordinatesOf, Int.tmod_eq_emod_of_nonneg hfolded, Int.tmod_eq_emod_of_nonneg hnonneg,
    Int.tdiv_eq_ediv_of_nonneg hnonneg]
  rw [hids] at hplace hnonneg ⊢
  rw [hside]
  omega

theorem distance_range (fromId toId : ℤ) :
    0 ≤ Position.distance (Position.coordinatesOf fromId) (Position.coordinatesOf toId) ∧
      Position.distance (Position.coordinatesOf fromId) (Position.coordinatesOf toId) ≤ longestRoad := by
  have hroot (square : ℕ) : Position.roundedRoot square ≤ square + 1 := by
    have hless := Nat.sqrt_le_self square
    rw [Position.roundedRoot]
    split_ifs <;> omega
  have hsquare {width : ℕ} (h : width ≤ 100000) : width ^ 2 ≤ 10000000000 := Nat.pow_le_pow_left h 2
  have hside : Position.planeSide = 100000 := rfl
  have hlongest : longestRoad = 100000000000 := by decide
  have hfrom := coordinatesOf_range fromId
  have hto := coordinatesOf_range toId
  rw [hside] at hfrom hto
  have hwidth := @hsquare ((Position.coordinatesOf fromId).x - (Position.coordinatesOf toId).x).natAbs (by omega)
  have hheight := @hsquare ((Position.coordinatesOf fromId).y - (Position.coordinatesOf toId).y).natAbs (by omega)
  rw [Position.distance]
  refine ⟨Int.natCast_nonneg _, ?_⟩
  have hmost := hroot (((Position.coordinatesOf fromId).x - (Position.coordinatesOf toId).x).natAbs ^ 2 +
    ((Position.coordinatesOf fromId).y - (Position.coordinatesOf toId).y).natAbs ^ 2)
  rw [hlongest]
  omega

theorem lootSigned_eq [Clock] {state : ConquisterState} {raid : Raid} (event : RaidEvent) {distance : ℤ}
    (now : ℤ) (rules : RaidRules) (htheirs : Amount (counter state.scores raid.target)) (hroad : 0 ≤ distance)
    (hlongest : distance ≤ longestRoad) :
    lootSigned state raid event distance now rules = some (loot state raid event distance now rules) := by
  have hmax : most = 9223372036854775807 := rfl
  have hlong : longestRoad = 100000000000 := by decide
  have hday : dayPercent = 100 := rfl
  have hpleaded := upToAll_nonneg (countPower_nonneg (slotsOf state raid.target) .pleading) rules.pleadingPercent
  have hall := upToAll_le (houseCopies state raid.target .pleading) rules.pleadingPercent
  have hwalked : 0 ≤ (if rules.lootDivisor > 0 then distance.tdiv rules.lootDivisor else distance) ∧
      (if rules.lootDivisor > 0 then distance.tdiv rules.lootDivisor else distance) ≤ longestRoad := by
    by_cases hdivided : rules.lootDivisor > 0
    · rw [if_pos hdivided]
      exact ⟨Int.tdiv_nonneg hroad (le_of_lt hdivided), le_trans (Int.tdiv_le_self _ hroad) hlongest⟩
    · rw [if_neg hdivided]
      exact ⟨hroad, hlongest⟩
  rw [lootSigned, loot]
  rw [houseCopies] at hall ⊢
  generalize (if rules.lootDivisor > 0 then distance.tdiv rules.lootDivisor else distance) = walked at hwalked ⊢
  generalize upToAll (countPower (slotsOf state raid.target) .pleading) rules.pleadingPercent = pleaded
    at hpleaded hall ⊢
  generalize (0 ≤ rules.goldenHour && Clock.localHour now = rules.goldenHour) = golden
  have hback : (walked * dayPercent).tdiv dayPercent = walked := Int.mul_tdiv_cancel _ (by decide)
  have hpaid : Fits (walked * dayPercent) := by
    rw [hday]
    exact fits_of_nonneg (by omega) (by omega)
  have hcarried : 0 ≤ walked * (if golden then 2 else 1) ∧ walked * (if golden then 2 else 1) ≤ 200000000000 := by
    cases golden <;> simp <;> omega
  have htheirs' := htheirs.1
  have htaken : 0 ≤ min (counter state.scores raid.target) (walked * (if golden then 2 else 1)) ∧
      min (counter state.scores raid.target) (walked * (if golden then 2 else 1)) ≤ 200000000000 := by omega
  simp only [exact_of_fits hpaid, Option.bind_eq_bind, Option.bind_some, hback]
  rw [exact_of_fits (fits_of_nonneg hcarried.1 (by omega)), Option.bind_some]
  generalize min (counter state.scores raid.target) (walked * (if golden then 2 else 1)) = taken at htaken ⊢
  have hspared := share_bounds htaken.1 hpleaded hall
  have hshares : taken * pleaded ≤ taken * 100 := mul_le_mul_of_nonneg_left hall htaken.1
  rw [exact_of_fits (fits_of_nonneg (mul_nonneg htaken.1 hpleaded) (by omega)), Option.bind_some,
    exact_of_fits (fits_of_nonneg (by omega) (by omega))]
  rfl

theorem takeLootSigned_eq {state : ConquisterState} (index : ℕ) {target : Str} {amount : ℤ}
    (hscore : Amount (counter state.scores target)) (hless : amount ≤ counter state.scores target) :
    takeLootSigned state index target amount = some (takeLoot state index target amount) := by
  have hmost := hscore.2
  have hmax : int64Max = most := rfl
  rw [takeLootSigned, takeLoot]
  by_cases hsome : amount > 0
  · rw [if_pos hsome, if_pos hsome, exact_of_fits (fits_of_nonneg (by omega) (by omega))]
    rfl
  · rw [if_neg hsome, if_neg hsome]
    rfl

def saltSigned (state : ConquisterState) (raider target : Str) (now : ℤ) (rules : RaidRules) :
    Option (ℤ × ConquisterState) :=
  let recent := state.knocks.filter fun knock => ¬ now - knock.stamp > saltSeconds
  let share := upToAll (houseCopies state target .salt) rules.saltPercent
  if share ≤ 0 ∨ ¬ recent.any (sameKnock raider target) then
    some (0, { state with knocks := recent ++ [⟨raider, target, now⟩] })
  else do
    let his := max (counter state.scores raider) 0
    let shares ← exact (his * share)
    let paid := shares.tdiv 100
    let left ← exact (his - paid)
    let score ← exact (counter (state.scores.set raider left) target + paid)
    return (paid,
      { state with
        knocks := recent.filter fun knock => ¬ sameKnock raider target knock
        scores := (state.scores.set raider left).set target score })

/-- Whether a raider who comes again so soon pays the 🧂 of the house. -/
def paysSalt (state : ConquisterState) (raider target : Str) (now : ℤ) (rules : RaidRules) : Prop :=
  0 < upToAll (houseCopies state target .salt) rules.saltPercent ∧
    ∃ knock ∈ state.knocks, now - knock.stamp ≤ saltSeconds ∧ knock.raider = raider ∧ knock.target = target

/-- There is room for his palle as many times over as the share, and for the owner's with what he pays. -/
def SaltFits (state : ConquisterState) (raider target : Str) (now : ℤ) (rules : RaidRules) : Prop :=
  paysSalt state raider target now rules →
    counter state.scores raider * upToAll (houseCopies state target .salt) rules.saltPercent ≤ int64Max ∧
    (raider ≠ target → counter state.scores target +
      counter state.scores raider * upToAll (houseCopies state target .salt) rules.saltPercent / 100 ≤ int64Max)

theorem paysSalt_iff {state : ConquisterState} {raider target : Str} {now : ℤ} {rules : RaidRules} :
    paysSalt state raider target now rules ↔
      ¬(upToAll (houseCopies state target .salt) rules.saltPercent ≤ 0 ∨
        ¬ (state.knocks.filter fun knock => ¬ now - knock.stamp > saltSeconds).any (sameKnock raider target)) := by
  simp [paysSalt, sameKnock, List.any_eq_true, not_or]

theorem saltSigned_iff {state : ConquisterState} {raider target : Str} (now : ℤ) (rules : RaidRules)
    (hraider : Amount (counter state.scores raider)) (htarget : Amount (counter state.scores target)) :
    saltSigned state raider target now rules = some (salt state raider target now rules) ↔
      SaltFits state raider target now rules := by
  rw [saltSigned, salt, SaltFits, paysSalt_iff]
  have hnonneg := upToAll_nonneg (countPower_nonneg (slotsOf state target) .salt) rules.saltPercent
  have hall := upToAll_le (houseCopies state target .salt) rules.saltPercent
  rw [houseCopies] at *
  generalize upToAll (countPower (slotsOf state target) .salt) rules.saltPercent = share at *
  by_cases hspared : share ≤ 0 ∨ ¬ (state.knocks.filter fun knock => ¬ now - knock.stamp > saltSeconds).any
      (sameKnock raider target)
  · rw [if_pos hspared, if_pos hspared]
    exact iff_of_true rfl fun hpays => absurd hspared hpays
  · have hshare : 0 < share := not_le.mp fun h => hspared (.inl h)
    have hproduct : 0 ≤ counter state.scores raider * share := mul_nonneg hraider.1 hnonneg
    have hpaid := share_bounds hraider.1 hnonneg hall
    have hleft := hraider.2
    have hmax : int64Max = most := rfl
    rw [if_neg hspared, if_neg hspared]
    simp only [max_eq_left hraider.1]
    rw [exact_bind_eq_some, exact_bind_eq_some, exact_bind_eq_some, fits_iff_of_nonneg hproduct,
      fits_iff_of_nonneg (by omega), counter_set]
    rw [Int.tdiv_eq_ediv_of_nonneg hproduct] at hpaid ⊢
    have hideal : saltPaid state raider share = counter state.scores raider * share / 100 := by
      rw [saltPaid, max_eq_left hraider.1, Int.tdiv_eq_ediv_of_nonneg hproduct]
    have hscore : Fits ((if target = raider then counter state.scores raider - counter state.scores raider * share / 100
        else counter state.scores target) + counter state.scores raider * share / 100) ↔
        (raider ≠ target → counter state.scores target + counter state.scores raider * share / 100 ≤ int64Max) := by
      by_cases hself : target = raider
      · rw [if_pos hself]
        exact iff_of_true (fits_of_nonneg (by omega) (by omega)) fun hother => absurd hself.symm hother
      · rw [if_neg hself, fits_iff_of_nonneg (add_nonneg htarget.1 hpaid.1)]
        exact ⟨fun h _ => h, fun h => h (Ne.symm hself)⟩
    rw [hscore, hideal, payTo, counter_set]
    constructor
    · rintro ⟨hshares, -, hroom, -⟩ -
      exact ⟨hshares, hroom⟩
    · intro h
      obtain ⟨hshares, hroom⟩ := h hspared
      exact ⟨hshares, by omega, hroom, rfl⟩

def eggsLaidSigned (state : ConquisterState) (minutes : ℤ) (rules : RaidRules) : Option (List (Str × ℤ)) :=
  (state.furniture.keys.filter fun player => 0 < houseCopies state player .hen).mapM fun player => do
    let laid ← exact (houseCopies state player .hen * rules.henPerMinute)
    let palle ← exact (laid * minutes)
    return (player, palle)

def payEggsSigned (scores : Counters) (laid : Str × ℤ) : Option Counters := do
  let score ← exact (counter scores laid.1 + laid.2)
  return scores.set laid.1 score

def layEggsSigned (state : ConquisterState) (now : ℤ) (rules : RaidRules) : Option ConquisterState :=
  if rules.henPerMinute ≤ 0 then some state
  else if state.eggsAt ≤ 0 ∨ state.eggsAt > now then some { state with eggsAt := now }
  else if eggMinutes state now rules ≤ 0 then some state
  else do
    let laid ← eggsLaidSigned state (eggMinutes state now rules) rules
    let scores ← laid.foldlM payEggsSigned state.scores
    return { state with eggsAt := state.eggsAt + eggMinutes state now rules * 60, scores := scores }

/-- Every house that lays has room for what it lays. -/
def EggsFit (state : ConquisterState) (now : ℤ) (rules : RaidRules) : Prop :=
  0 < eggMinutes state now rules → ∀ player, 0 < houseCopies state player .hen →
    counter state.scores player + houseCopies state player .hen * rules.henPerMinute * eggMinutes state now rules ≤ int64Max

theorem payEggsSigned_iff {laid : List (Str × ℤ)} {scores : Counters} (hnodup : (laid.map Prod.fst).Nodup) :
    laid.foldlM payEggsSigned scores = some (laid.foldl payEggs scores) ↔
      ∀ eggs ∈ laid, Fits (counter scores eggs.1 + eggs.2) := by
  induction laid generalizing scores with
  | nil => simp
  | cons eggs laid ih =>
    rw [List.map_cons, List.nodup_cons] at hnodup
    have hothers : (∀ other ∈ laid, Fits (counter (payEggs scores eggs) other.1 + other.2)) ↔
        ∀ other ∈ laid, Fits (counter scores other.1 + other.2) := by
      apply forall₂_congr
      intro other hother
      have hne : other.1 ≠ eggs.1 := fun h => hnodup.1 (h ▸ List.mem_map_of_mem hother)
      rw [payEggs, counter_set, if_neg hne]
    rw [List.foldlM_cons, List.foldl_cons, payEggsSigned, List.forall_mem_cons, ← hothers, ← ih hnodup.2]
    by_cases hfits : Fits (counter scores eggs.1 + eggs.2)
    · rw [exact_of_fits hfits, and_iff_right hfits]
      rfl
    · rw [exact_eq_none hfits]
      exact iff_of_false (Option.some_ne_none _).symm fun h => hfits h.1

theorem house_of_hens {state : ConquisterState} {player : Str} (h : 0 < houseCopies state player .hen) :
    player ∈ state.furniture.keys := by
  by_contra hnone
  rw [houseCopies_of_no_house hnone] at h
  exact absurd h (lt_irrefl 0)

theorem eggsLaidSigned_eq_some {state : ConquisterState} {minutes : ℤ} {rules : RaidRules}
    (hrules : 0 < rules.henPerMinute) (hminutes : 0 < minutes) (laid : List (Str × ℤ)) :
    eggsLaidSigned state minutes rules = some laid ↔
      (∀ player, 0 < houseCopies state player .hen →
        houseCopies state player .hen * rules.henPerMinute * minutes ≤ int64Max) ∧ laid = eggsLaid state minutes rules := by
  have hone (player : Str) (palle : Str × ℤ) :
      (do
        let laid ← exact (houseCopies state player .hen * rules.henPerMinute)
        let palle ← exact (laid * minutes)
        return (player, palle)) = some palle ↔
      (Fits (houseCopies state player .hen * rules.henPerMinute) ∧
        Fits (houseCopies state player .hen * rules.henPerMinute * minutes)) ∧
      palle = (player, houseCopies state player .hen * rules.henPerMinute * minutes) := by
    rw [exact_bind_eq_some, exact_bind_eq_some, and_assoc, Option.pure_def, Option.some_inj, eq_comm]
  rw [eggsLaidSigned, mapM_eq_some hone, eggsLaid]
  apply and_congr_left
  intro _
  have hroom {player : Str} (hhens : 0 < houseCopies state player .hen) :
      (Fits (houseCopies state player .hen * rules.henPerMinute) ∧
        Fits (houseCopies state player .hen * rules.henPerMinute * minutes)) ↔
      houseCopies state player .hen * rules.henPerMinute * minutes ≤ int64Max := by
    have hlaid : 0 ≤ houseCopies state player .hen * rules.henPerMinute := mul_nonneg (le_of_lt hhens) (le_of_lt hrules)
    have hless := le_mul_of_one_le_right hlaid hminutes
    rw [fits_iff_of_nonneg hlaid, fits_iff_of_nonneg (le_trans hlaid hless)]
    exact and_iff_right_of_imp (le_trans hless)
  constructor
  · intro h player hhens
    exact (hroom hhens).mp (h player (List.mem_filter.mpr ⟨house_of_hens hhens, decide_eq_true hhens⟩))
  · intro h player hplayer
    have hhens := of_decide_eq_true (List.mem_filter.mp hplayer).2
    exact (hroom hhens).mpr (h player hhens)

theorem layEggsSigned_iff {state : ConquisterState} (now : ℤ) (rules : RaidRules)
    (hscores : ∀ player, Amount (counter state.scores player)) :
    layEggsSigned state now rules = some (layEggs state now rules) ↔ EggsFit state now rules := by
  rw [layEggsSigned, layEggs, EggsFit]
  by_cases hrules : rules.henPerMinute ≤ 0
  · have hminutes : eggMinutes state now rules = 0 := if_pos (.inl hrules)
    rw [if_pos hrules, if_pos hrules, hminutes]
    exact iff_of_true rfl fun h => absurd h (lt_irrefl 0)
  rw [if_neg hrules, if_neg hrules]
  by_cases hstart : state.eggsAt ≤ 0 ∨ state.eggsAt > now
  · have hminutes : eggMinutes state now rules = 0 := if_pos (.inr hstart)
    rw [if_pos hstart, if_pos hstart, hminutes]
    exact iff_of_true rfl fun h => absurd h (lt_irrefl 0)
  rw [if_neg hstart, if_neg hstart]
  by_cases hminutes : eggMinutes state now rules ≤ 0
  · rw [if_pos hminutes, if_pos hminutes]
    exact iff_of_true rfl fun h => absurd h (not_lt.mpr hminutes)
  rw [if_neg hminutes, if_neg hminutes]
  have hkeys : (eggsLaid state (eggMinutes state now rules) rules).map Prod.fst =
      state.furniture.keys.filter fun player => 0 < houseCopies state player .hen := by
    rw [eggsLaid, List.map_map]
    exact List.map_id _
  have hlaid := @eggsLaidSigned_eq_some state _ rules (not_le.mp hrules) (not_le.mp hminutes)
  have hpay := @payEggsSigned_iff (eggsLaid state (eggMinutes state now rules) rules) state.scores
    (hkeys ▸ state.furniture.nodup.filter _)
  have hroom : (∀ player, 0 < houseCopies state player .hen →
        houseCopies state player .hen * rules.henPerMinute * eggMinutes state now rules ≤ int64Max) ∧
      (∀ eggs ∈ eggsLaid state (eggMinutes state now rules) rules, Fits (counter state.scores eggs.1 + eggs.2)) ↔
      ∀ player, 0 < houseCopies state player .hen → counter state.scores player +
        houseCopies state player .hen * rules.henPerMinute * eggMinutes state now rules ≤ int64Max := by
    constructor
    · rintro ⟨-, hfits⟩ player hhens
      exact (hfits _ (List.mem_map_of_mem (List.mem_filter.mpr ⟨house_of_hens hhens, decide_eq_true hhens⟩))).2
    · intro h
      refine ⟨fun player hhens => le_trans (le_add_of_nonneg_left (hscores player).1) (h player hhens), ?_⟩
      intro eggs heggs
      obtain ⟨player, hplayer, rfl⟩ := List.mem_map.mp heggs
      have hhens := of_decide_eq_true (List.mem_filter.mp hplayer).2
      have hpalle : 0 ≤ houseCopies state player .hen * rules.henPerMinute * eggMinutes state now rules :=
        mul_nonneg (mul_nonneg (le_of_lt hhens) (le_of_lt (not_le.mp hrules))) (le_of_lt (not_le.mp hminutes))
      exact fits_of_nonneg (add_nonneg (hscores player).1 hpalle) (h player hhens)
  rw [forall_prop_of_true (not_le.mp hminutes), ← hroom, ← hpay]
  constructor
  · intro h
    obtain ⟨laid, hall, hrest⟩ := Option.bind_eq_some_iff.mp h
    obtain ⟨hfew, rfl⟩ := (hlaid laid).mp hall
    obtain ⟨scores, hpaid, hstate⟩ := Option.bind_eq_some_iff.mp hrest
    have hsame : scores = (eggsLaid state (eggMinutes state now rules) rules).foldl payEggs state.scores :=
      congrArg ConquisterState.scores (Option.some_inj.mp hstate)
    exact ⟨hfew, hsame ▸ hpaid⟩
  · rintro ⟨hfew, hpaid⟩
    rw [(hlaid _).mpr ⟨hfew, rfl⟩, Option.bind_eq_bind, Option.bind_some, hpaid]
    rfl

def payRewardSigned (scores : Counters) (player : Str) (reward : ℤ) : Option Counters := do
  let score ← exact (counter scores player + reward)
  return scores.set player score

def inviteDueSigned (state : ConquisterState) (newcomer : Str) (samePerson : Bool) :
    Option (Option InviteReward × ConquisterState) :=
  match rewardDue state newcomer with
  | none => some (none, state)
  | some inviter =>
    if samePerson then some (none, { state with invitePaid := state.invitePaid.set newcomer (-1) })
    else do
      let thanked ← payRewardSigned state.scores inviter inviterReward
      let scores ← payRewardSigned thanked newcomer invitedReward
      return (some
          { inviter := displayName state inviter
            newcomer := displayName state newcomer
            inviterPalle := inviterReward
            newcomerPalle := invitedReward },
        { state with invitePaid := state.invitePaid.set newcomer 1, scores := scores })

/-- Whoever brought the newcomer and the newcomer have room for what they are given. -/
def InviteFits (state : ConquisterState) (newcomer : Str) (samePerson : Bool) : Prop :=
  ∀ inviter, rewardDue state newcomer = some inviter → samePerson = false →
    counter state.scores inviter + inviterReward ≤ int64Max ∧
    counter state.scores newcomer + (if newcomer = inviter then inviterReward else 0) + invitedReward ≤ int64Max

theorem payRewardSigned_bind_iff {α : Type} {scores : Counters} {player : Str} {reward : ℤ} {next : Counters → Option α}
    {result : α} (hscore : 0 ≤ counter scores player) (hreward : 0 ≤ reward) :
    (payRewardSigned scores player reward >>= next) = some result ↔
      counter scores player + reward ≤ int64Max ∧ next (payReward scores player reward) = some result := by
  rw [payRewardSigned, bind_assoc, exact_bind_eq_some, fits_iff_of_nonneg (add_nonneg hscore hreward)]
  rfl

theorem inviteDueSigned_iff {state : ConquisterState} (newcomer : Str) (samePerson : Bool)
    (hscores : ∀ player, Amount (counter state.scores player)) :
    inviteDueSigned state newcomer samePerson = some (inviteDue state newcomer samePerson) ↔
      InviteFits state newcomer samePerson := by
  have hinviter : (0 : ℤ) ≤ inviterReward := by decide
  rw [inviteDueSigned, inviteDue, InviteFits]
  cases hdue : rewardDue state newcomer with
  | none => simp
  | some inviter =>
    cases samePerson with
    | true => simp
    | false =>
      have hthanked : counter (payReward state.scores inviter inviterReward) newcomer =
          counter state.scores newcomer + (if newcomer = inviter then inviterReward else 0) := by
        rw [payReward, counter_set]
        by_cases hself : newcomer = inviter
        · rw [if_pos hself, if_pos hself, hself]
        · rw [if_neg hself, if_neg hself, add_zero]
      have hleast : 0 ≤ counter state.scores newcomer + (if newcomer = inviter then inviterReward else 0) := by
        apply add_nonneg (hscores newcomer).1
        split_ifs
        · exact hinviter
        · exact le_rfl
      dsimp only
      rw [if_neg Bool.false_ne_true, if_neg Bool.false_ne_true,
        payRewardSigned_bind_iff (hscores inviter).1 hinviter,
        payRewardSigned_bind_iff (hthanked ▸ hleast) (by decide), hthanked]
      simp

def leavePlaceSigned (state : ConquisterState) (now : ℤ) : Option (Except Failure (Settlement × ConquisterState)) :=
  match state.current with
  | none => some (.ok ({}, state))
  | some holder => settleHoldSigned { state with current := none } holder now

def goHomeSigned (state : ConquisterState) (player : Str) (now : ℤ) :
    Option (Except Failure (Departure × ConquisterState)) :=
  if whereabouts state player ≠ .conquister then some (.ok ({}, state))
  else do
    let out ← leavePlaceSigned state now
    match out with
    | .error failure => return .error failure
    | .ok (settled, away) =>
      return .ok ({ left := true, earned := settled.earned, lightning := settled.lightning,
                    zodiacPercent := settled.zodiacPercent }, away)

def buyAtHomeSigned (state : ConquisterState) (departure : Departure) (username emoji : Str) (position cost : ℤ)
    (limit : ℕ) (inflation : ℤ) : Option (FurnitureResult × ConquisterState) :=
  let outcome : FurnitureResult :=
    { departure := departure, availableScore := counter state.scores username
      shown := shownGear state username, house := SlotCodec.stored (slotsOf state username) }
  match chosenSlot state username emoji position limit with
  | .error status => some ({ outcome with status := status }, state)
  | .ok (withHim, slot) =>
    let placed := { outcome with withHim := withHim, position := if withHim then 0 else slot + 1 }
    let there := slotAt (slotsOf state username) slot
    if ¬ withHim ∧ isChild state username slot then
      some ({ placed with status := .childThere, replaced := there }, state)
    else if ¬ withHim ∧ slot < (slotsOf state username).length ∧
        withoutVariation there = withoutVariation emoji then
      some ({ placed with status := .alreadyThere, replaced := there }, state)
    else do
      let copies := copiesOf state (withoutVariation emoji)
      let charged ← inflatedSigned cost copies inflation
      let priced := { placed with copies := copies, charged := charged }
      if counter state.scores username < charged then
        return ({ priced with status := .insufficientScore }, state)
      else
        -- The source takes the price away once, for the answer and for the score.
        let left ← exact (counter state.scores username - charged)
        let after := hangBought state username emoji withHim slot charged
        return ({ priced with
            status := .bought
            replaced := slotAt (if withHim then gearOf state username else slotsOf state username) slot
            availableScore := left
            shown := shownGear after username
            house := storedIn after.furniture username }, after)

def furnitureBuySigned (state : ConquisterState) (username emoji : Str) (position cost : ℤ) (limit : ℕ)
    (now inflation : ℤ) : Option (Except Failure (FurnitureResult × ConquisterState)) := do
  let home ← goHomeSigned state username now
  match home with
  | .error failure => return .error failure
  | .ok (departure, away) =>
    if ¬ atHome away username then
      return .ok ({ status := .notHome, departure := departure,
                    availableScore := counter away.scores username }, away)
    else
      let bought ← buyAtHomeSigned away departure username emoji position cost limit inflation
      return .ok bought

/-- Whoever buys from the place has a hold whose pay fits. -/
def BuyFits (state : ConquisterState) (username : Str) (now : ℤ) : Prop :=
  whereabouts state username = .conquister → ∀ hold, state.current = some hold → HoldFits hold now

section
variable {state : ConquisterState} {username : Str} {now : ℤ} (hscores : ∀ player, Amount (counter state.scores player))
  (hbanked : ∀ hold, state.current = some hold → 0 ≤ hold.banked)
include hscores

theorem buyAtHomeSigned_eq (departure : Departure) (emoji : Str) (position : ℤ) {cost inflation : ℤ} (limit : ℕ)
    (hcost : cost ≤ int64Max) (hinflation : inflation ≤ 1000) :
    buyAtHomeSigned state departure username emoji position cost limit inflation =
      some (buyAtHome state departure username emoji position cost limit inflation) := by
  rw [buyAtHomeSigned, buyAtHome]
  cases chosenSlot state username emoji position limit with
  | error status => rfl
  | ok chosen =>
    dsimp only
    have hscore := hscores username
    have hprice := inflatedSigned_eq (copiesOf state (withoutVariation emoji)) hcost
      (show 100 + max inflation 0 ≤ 1100 by omega)
    have hcharged := inflated_range (copiesOf state (withoutVariation emoji)) inflation hcost
    by_cases hchild : ¬ chosen.1 ∧ isChild state username chosen.2
    · rw [if_pos hchild, if_pos hchild]
    rw [if_neg hchild, if_neg hchild]
    by_cases hsame : ¬ chosen.1 ∧ chosen.2 < (slotsOf state username).length ∧
        withoutVariation (slotAt (slotsOf state username) chosen.2) = withoutVariation emoji
    · rw [if_pos hsame, if_pos hsame]
    rw [if_neg hsame, if_neg hsame, hprice, Option.bind_eq_bind, Option.bind_some]
    by_cases hpoor : counter state.scores username < inflated cost (copiesOf state (withoutVariation emoji)) inflation
    · rw [if_pos hpoor, if_pos hpoor]
      rfl
    · have hleft : Fits (counter state.scores username -
          inflated cost (copiesOf state (withoutVariation emoji)) inflation) := by
        have hmost := hscore.2
        exact fits_of_nonneg (by omega) (le_trans (by omega) hmost)
      rw [if_neg hpoor, if_neg hpoor, exact_of_fits hleft]
      rfl

include hbanked

theorem goHomeSigned_eq (h : BuyFits state username now) :
    goHomeSigned state username now = some (goHome state username now) := by
  rw [goHomeSigned, goHome]
  by_cases hplace : whereabouts state username = .conquister
  · rw [if_neg (not_not.mpr hplace), if_neg (not_not.mpr hplace), leavePlaceSigned, leavePlace]
    cases hheld : state.current with
    | none => rfl
    | some hold =>
      have hpaid := @settleHoldSigned_eq { state with current := none } hold now (hbanked hold hheld)
        (hscores hold.username) (h hplace hold hheld)
      dsimp only
      rw [hpaid]
      cases settleHold { state with current := none } hold now <;> rfl
  · rw [if_pos hplace, if_pos hplace]

theorem goHome_amounts (h : BuyFits state username now) {departure : Departure} {away : ConquisterState}
    (haway : goHome state username now = .ok (departure, away)) (player : Str) :
    Amount (counter away.scores player) := by
  rw [goHome, leavePlace] at haway
  by_cases hplace : whereabouts state username = .conquister
  · rw [if_neg (not_not.mpr hplace)] at haway
    cases hheld : state.current with
    | none =>
      rw [hheld] at haway
      cases haway
      exact hscores player
    | some hold =>
      rw [hheld] at haway
      dsimp only at haway
      cases hsettled : settleHold { state with current := none } hold now with
      | error failure =>
        rw [hsettled] at haway
        cases haway
      | ok paid =>
        rw [hsettled] at haway
        cases haway
        exact @settleHold_amounts { state with current := none } hold now (hbanked hold hheld) (hscores hold.username)
          (h hplace hold hheld) _ _ hsettled player (hscores player)
  · rw [if_pos hplace] at haway
    cases haway
    exact hscores player

theorem furnitureBuySigned_iff (emoji : Str) (position : ℤ) {cost inflation : ℤ} (limit : ℕ)
    (hcost : cost ≤ int64Max) (hinflation : inflation ≤ 1000) :
    furnitureBuySigned state username emoji position cost limit now inflation =
      some (furnitureBuy state username emoji position cost limit now inflation) ↔ BuyFits state username now := by
  by_cases hfits : BuyFits state username now
  · refine iff_of_true ?_ hfits
    rw [furnitureBuySigned, furnitureBuy, goHomeSigned_eq hscores hbanked hfits, Option.bind_eq_bind, Option.bind_some]
    cases hhome : goHome state username now with
    | error failure => rfl
    | ok home =>
      dsimp only
      by_cases hin : ¬ atHome home.2 username
      · rw [if_pos hin, if_pos hin]
        rfl
      · have haway := goHome_amounts hscores hbanked hfits hhome
        rw [if_neg hin, if_neg hin,
          buyAtHomeSigned_eq haway home.1 emoji position limit hcost hinflation]
        rfl
  · refine iff_of_false ?_ hfits
    simp only [BuyFits, not_forall, exists_prop] at hfits
    obtain ⟨hplace, hold, hheld, hpast⟩ := hfits
    rw [furnitureBuySigned, goHomeSigned, if_neg (not_not.mpr hplace), leavePlaceSigned, hheld]
    dsimp only
    rw [settleHoldSigned_eq_none _ hpast]
    exact (Option.some_ne_none _).symm

end

def quoteAddSigned (state : ConquisterState) (quotes : Quotes) (username quote : Str) (cost : ℤ) :
    Option (Except Failure (QuoteAddResult × ConquisterState × Quotes)) :=
  let score := counter state.scores username
  if score < cost then some (.ok ({ status := .insufficientScore, availableScore := score }, state, quotes))
  else if quote ∈ quotes then some (.ok ({ status := .duplicate, availableScore := score }, state, quotes))
  else if counter state.quotesAdded username = int64Max then some (.error .overflow)
  else do
    let left ← exact (score - cost)
    let added ← exact (counter state.quotesAdded username + 1)
    return .ok ({ status := .added, availableScore := left },
      { state with
        quoteAuthors := state.quoteAuthors.set quote username
        scores := state.scores.set username left
        quotesAdded := state.quotesAdded.set username added },
      quotes ++ [quote])

theorem quoteAddSigned_eq {state : ConquisterState} (quotes : Quotes) {username : Str} (quote : Str) {cost : ℤ}
    (hscore : Amount (counter state.scores username)) (hadded : Fits (counter state.quotesAdded username))
    (hcost : 0 ≤ cost) :
    quoteAddSigned state quotes username quote cost = some (quoteAdd state quotes username quote cost) := by
  have hmax : int64Max = most := rfl
  have hscore' := hscore.2
  have hadded' := hadded.2
  have hleast := hadded.1
  rw [quoteAddSigned, quoteAdd]
  by_cases hpoor : counter state.scores username < cost
  · rw [if_pos hpoor, if_pos hpoor]
  rw [if_neg hpoor, if_neg hpoor]
  by_cases hthere : quote ∈ quotes
  · rw [if_pos hthere, if_pos hthere]
  rw [if_neg hthere, if_neg hthere]
  by_cases hfull : counter state.quotesAdded username = int64Max
  · rw [if_pos hfull, if_pos hfull]
  · rw [if_neg hfull, if_neg hfull, exact_of_fits (fits_of_nonneg (by omega) (by omega)),
      exact_of_fits ⟨by omega, by omega⟩]
    rfl

/-- The numbers of the configuration that palle meet, within what is taken for each. -/
structure AppConfig.Admitted (config : AppConfig) : Prop where
  quoteCost : 0 ≤ config.quoteCost ∧ config.quoteCost < 2 ^ 31
  furnitureCost : 0 ≤ config.furnitureCost ∧ config.furnitureCost < 2 ^ 31
  nukeCost : 0 ≤ config.nukeCost ∧ config.nukeCost < 2 ^ 31
  balloonCost : 0 ≤ config.balloonCost ∧ config.balloonCost < 2 ^ 31
  furnitureInflation : 0 ≤ config.furnitureInflation ∧ config.furnitureInflation ≤ 1000
  lootDivisor : 1 ≤ config.lootDivisor ∧ config.lootDivisor < 2 ^ 31
  pleadingPercent : 0 ≤ config.pleadingPercent ∧ config.pleadingPercent ≤ 100
  henPerMinute : 0 ≤ config.henPerMinute ∧ config.henPerMinute < 2 ^ 31
  saltPercent : 0 ≤ config.saltPercent ∧ config.saltPercent ≤ 1000

/-- Every score and what is put aside are amounts, and the counters of the quotes are numbers of 64 bits. -/
structure AmountsIn (state : ConquisterState) : Prop where
  scores : ∀ player, Amount (counter state.scores player)
  banked : ∀ hold, state.current = some hold → Amount hold.banked
  quotes : ∀ player, Fits (counter state.quotesAdded player)

/-- A part of the game that counts palle, with what it is given; whoever debugs buys for nothing. -/
inductive PalleStep where
  | settleHold (hold : Holder) (now : ℤ)
  | deliver (index : ℕ) (raid : Raid)
  | loot (index : ℕ) (raid : Raid) (event : RaidEvent) (fromId toId now : ℤ)
  | homecoming (raid : Raid)
  | salt (raider target : Str) (now : ℤ)
  | layEggs (now : ℤ)
  | inviteDue (newcomer : Str) (samePerson : Bool)
  | furnitureBuy (username emoji : Str) (position : ℤ) (debugging : Bool) (now : ℤ)
  | quoteAdd (quotes : Quotes) (username quote : Str) (debugging : Bool)

namespace PalleStep

def Given : PalleStep → Prop
  | .settleHold hold _ => Amount hold.banked
  | .deliver _ raid => Amount raid.gift
  | .homecoming raid => Amount raid.loot ∧ Amount raid.gift
  | _ => True

/-- What an emoji is sold for, and how much dearer each copy makes it. -/
def priceOf (config : AppConfig) (emoji : Str) (debugging : Bool) : ℤ :=
  if debugging then 0 else (fixedPrice config emoji).getD config.furnitureCost

def inflationOf (config : AppConfig) (emoji : Str) : ℤ :=
  if (fixedPrice config emoji).isSome then 0 else config.furnitureInflation

/-- Every operation has the exact result, so that the part does what it does on numbers without end. -/
def Exact [Clock] (state : ConquisterState) (config : AppConfig) : PalleStep → Prop
  | .settleHold hold now => settleHoldSigned state hold now = some (NorelecBot.settleHold state hold now)
  | .deliver index raid => deliverPalleSigned state index raid = some (deliverPalle state index raid)
  | .loot index raid event fromId toId now =>
    let road := Position.distance (Position.coordinatesOf fromId) (Position.coordinatesOf toId)
    let looted := NorelecBot.loot state raid event road now (raidRules config)
    lootSigned state raid event road now (raidRules config) = some looted ∧
      takeLootSigned state index raid.target looted.loot = some (takeLoot state index raid.target looted.loot)
  | .homecoming raid => bringPalleSigned state raid = some (bringPalle state raid)
  | .salt raider target now =>
    saltSigned state raider target now (raidRules config) =
      some (NorelecBot.salt state raider target now (raidRules config))
  | .layEggs now => layEggsSigned state now (raidRules config) = some (NorelecBot.layEggs state now (raidRules config))
  | .inviteDue newcomer samePerson =>
    inviteDueSigned state newcomer samePerson = some (NorelecBot.inviteDue state newcomer samePerson)
  | .furnitureBuy username emoji position debugging now =>
    furnitureBuySigned state username emoji position (priceOf config emoji debugging) config.furnitureLimit now
        (inflationOf config emoji) =
      some (NorelecBot.furnitureBuy state username emoji position (priceOf config emoji debugging) config.furnitureLimit
        now (inflationOf config emoji))
  | .quoteAdd quotes username quote debugging =>
    quoteAddSigned state quotes username quote (if debugging then 0 else config.quoteCost) =
      some (NorelecBot.quoteAdd state quotes username quote (if debugging then 0 else config.quoteCost))

/-- There is room for what is added and multiplied. -/
def Within (state : ConquisterState) (config : AppConfig) : PalleStep → Prop
  | .settleHold hold now => HoldFits hold now
  | .deliver _ raid => counter state.scores raid.target + raid.gift ≤ int64Max
  | .homecoming raid => counter state.scores raid.raider + (raid.loot + raid.gift) ≤ int64Max
  | .salt raider target now => SaltFits state raider target now (raidRules config)
  | .layEggs now => EggsFit state now (raidRules config)
  | .inviteDue newcomer samePerson => InviteFits state newcomer samePerson
  | .furnitureBuy username _ _ _ now => BuyFits state username now
  | .loot .. => True
  | .quoteAdd .. => True

theorem priceOf_range {config : AppConfig} (h : config.Admitted) (emoji : Str) (debugging : Bool) :
    0 ≤ priceOf config emoji debugging ∧ priceOf config emoji debugging ≤ int64Max := by
  have hsmall : (2 : ℤ) ^ 31 ≤ int64Max := by decide
  have hfurniture := h.furnitureCost
  have hnuke := h.nukeCost
  have hballoon := h.balloonCost
  rw [priceOf, fixedPrice]
  split_ifs <;> simp <;> omega

theorem inflationOf_le {config : AppConfig} (h : config.Admitted) (emoji : Str) : inflationOf config emoji ≤ 1000 := by
  rw [inflationOf]
  split_ifs
  · decide
  · exact h.furnitureInflation.2

/-- Each part comes out exact just when there is room for its palle; loot and quotes always have it. -/
theorem exact_iff_within [Clock] {state : ConquisterState} {config : AppConfig} {step : PalleStep} (hstate : AmountsIn state)
    (hconfig : config.Admitted) (hgiven : step.Given) : step.Exact state config ↔ step.Within state config := by
  cases step with
  | settleHold hold now => exact settleHoldSigned_iff now hgiven.1 (hstate.scores _)
  | deliver index raid => exact deliverPalleSigned_iff index (hstate.scores _) hgiven
  | homecoming raid => exact bringPalleSigned_iff (hstate.scores _) hgiven.1 hgiven.2
  | salt raider target now => exact saltSigned_iff now _ (hstate.scores _) (hstate.scores _)
  | layEggs now => exact layEggsSigned_iff now _ hstate.scores
  | inviteDue newcomer samePerson => exact inviteDueSigned_iff newcomer samePerson hstate.scores
  | furnitureBuy username emoji position debugging now =>
    exact furnitureBuySigned_iff hstate.scores (fun hold hheld => (hstate.banked hold hheld).1) emoji position _
      (priceOf_range hconfig emoji debugging).2 (inflationOf_le hconfig emoji)
  | loot index raid event fromId toId now =>
    refine iff_of_true ?_ trivial
    have hroad := distance_range fromId toId
    have hless := (loot_bounds state raid event now (raidRules config) hroad.1 (hstate.scores raid.target).1).2
    exact ⟨lootSigned_eq event now _ (hstate.scores _) hroad.1 hroad.2, takeLootSigned_eq index (hstate.scores _) hless⟩
  | quoteAdd quotes username quote debugging =>
    refine iff_of_true (quoteAddSigned_eq quotes quote (hstate.scores _) (hstate.quotes _) ?_) trivial
    cases debugging
    · exact hconfig.quoteCost.1
    · exact le_rfl

def having (palle : ℤ) : ConquisterState := { scores := OrderedMap.empty.set (utf8 "b") palle }

def onePalla : Raid := { raider := utf8 "a", target := utf8 "b", arrive := 0, back := 60, gift := 1 }

theorem amountsIn_having {palle : ℤ} (h : Amount palle) : AmountsIn (having palle) where
  scores player := by
    rw [having, counter_set]
    split_ifs
    · exact h
    · change Amount 0
      decide
  banked hold hheld := by cases hheld
  quotes player := by
    change Fits 0
    decide

theorem admitted_default : AppConfig.Admitted {} := by
  constructor <;> decide

theorem given_onePalla : Given (.deliver 0 onePalla) := by
  change Amount 1
  decide

theorem exact_iff_within_gift : @Exact utc (having 41) {} (.deliver 0 onePalla) :=
  (@exact_iff_within utc (having 41) {} (.deliver 0 onePalla) (amountsIn_having (by decide)) admitted_default
    given_onePalla).mpr (show (41 : ℤ) + 1 ≤ int64Max by decide)

/-- One palla more for who has as many as a number can be. -/
theorem gift_past_the_top : ¬ ∀ (clock : Clock) (state : ConquisterState) (config : AppConfig) (step : PalleStep),
    AmountsIn state → config.Admitted → step.Given → @Exact clock state config step := by
  intro h
  have hgift := h utc (having int64Max) {} (.deliver 0 onePalla) (amountsIn_having (by decide)) admitted_default
    given_onePalla
  have hfits := (deliverPalleSigned_iff 0 ((amountsIn_having (by decide)).scores onePalla.target) given_onePalla).mp hgift
  exact absurd hfits (by decide +kernel)

end PalleStep

end NorelecBot
