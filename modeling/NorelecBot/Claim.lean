import NorelecBot.Landing

/-! # Coming for the place

Whoever enters settles the hold he ends, unless the holder's 🎈 keeps him out.
-/

namespace NorelecBot
open Lib

inductive BalloonRoll where
  | none
  | held
  | popped
  deriving DecidableEq, Repr

def balloonAttempts : ℕ := 4

inductive ClaimStatus where
  | taken
  | alreadyHeld
  | defended
  | cooldown
  | travelling
  | frozen
  deriving DecidableEq, Repr

structure ClaimResult where
  status : ClaimStatus := .taken
  previousUsername : Str := []
  previousKey : Str := []
  previousUserId : ℤ := 0
  earned : ℤ := 0
  balloonPopped : Bool := false
  sneaked : Bool := false
  firstEntry : Bool := false
  enteredLightning : ℤ := 0
  lobstersBecame : List Str := []
  carriedBefore : Str := []
  nextChance : ℤ := 0
  penaltySeconds : ℤ := 0
  travelSeconds : ℤ := 0
  lightning : ℤ := 0
  zodiacPercent : ℤ := 100
  deriving DecidableEq, Repr

structure ClaimRules where
  cooldownSeconds : ℤ := 0
  lightning : ℤ := 0
  ninja : ℤ := 0
  hourglass : ℤ := 0
  deriving DecidableEq, Repr

/-- The numbers drawn for a claim: whether a 🥷 slips past, and whether the 🎈 pops. -/
structure ClaimDraws where
  stealth : ℕ
  balloon : ℕ
  deriving Repr

/-- A newcomer is spared for his first day. -/
def newcomerSeconds : ℤ := 24 * 60 * 60

def raidOf (state : ConquisterState) (username : Str) : Option Raid :=
  state.raids.find? fun raid => raid.raider = username

/-- Whether a player came less than a day ago. -/
def newcomer (state : ConquisterState) (player : Str) (now : ℤ) : Bool :=
  (state.joined.find player).any fun came => now - came < newcomerSeconds

section
variable [SlotCodec]

/-- Whether a 🎈 of his guards that place. Frozen by a 🧊, it guards nothing. -/
def balloonThere (state : ConquisterState) (player : Str) (site : Whereabouts) (now : ℤ) : Bool :=
  frozenFor state player now ≤ 0 &&
    ((site = .home && 0 < houseCopies state player .balloon) ||
      (whereabouts state player = site && 0 < carriedCopies state player .balloon))

/-- One that pops lets the attempt through and is as good as new at once. -/
def balloonAttempt (state : ConquisterState) (player : Str) (site : Whereabouts) (now : ℤ)
    (draw : ℕ) : BalloonRoll × ConquisterState :=
  if ¬ balloonThere state player site now then (.none, state)
  else if (randomIndex draw balloonAttempts : ℤ) < counter state.balloons player + 1 then
    (.popped, { state with balloons := state.balloons.erase player })
  else (.held, { state with balloons := state.balloons.set player (counter state.balloons player + 1) })

/-- The chance, in percent, that the next attempt pops the player's 🎈. -/
def balloonPopChance (state : ConquisterState) (player : Str) : ℤ :=
  ((counter state.balloons player + 1) * 100).tdiv balloonAttempts

/-- Every ⏳ takes its share off the wait: enough of them and there is none. -/
def penalty (state : ConquisterState) (username : Str) (rules : ClaimRules) : ℤ :=
  (rules.cooldownSeconds *
    (100 - upToAll (carriedCopies state username .hourglass) rules.hourglass)).tdiv 100

/-- The hold he starts: the ⚡ on him as he comes in set what it is worth. -/
def newHold (state : ConquisterState) (userId : ℤ) (username : Str) (now lightning : ℤ)
    (lobsters : SortedMap Str) : Holder :=
  let bare : Holder := { userId := userId, username := username, since := now, lobsters := lobsters }
  let bolts := carriedCopies { state with current := some bare } username .bolt
  let entered := if bolts > 0 ∧ lightning > 0 then 100 + bolts * lightning else 0
  { bare with lightningPercent := entered, bolts := if entered > 0 then bolts else 0 }

def enter (state : ConquisterState) (outcome : ClaimResult) (userId : ℤ) (username : Str) (now : ℤ)
    (rules : ClaimRules) : ClaimResult × ConquisterState :=
  let lobsters := if outcome.previousKey = [] then SortedMap.empty
    else lobstersCopying state username outcome.previousKey
  let known := if (state.joined.find username).isSome then
      { state with entered := state.entered.set username 1 } else state
  let hold := newHold known userId username now rules.lightning lobsters
  ({ outcome with
      lobstersBecame := lobsters.entries.map Prod.snd
      carriedBefore := shownGear state username
      enteredLightning := hold.lightningPercent },
    { known with current := some hold })

def kick (state : ConquisterState) (hold : Holder) (userId : ℤ) (username : Str) (now : ℤ)
    (rules : ClaimRules) (draws : ClaimDraws) : Except Failure (ClaimResult × ConquisterState) :=
  let holder := hold.username
  let stealth := upToAll (carriedCopies state username .ninja) rules.ninja
  let first := newcomer state username now && counter state.entered username = 0
  let sneaked := !first && 0 < stealth && balloonThere state holder .conquister now &&
    wins draws.stealth stealth
  let attempt := if sneaked || first then (BalloonRoll.none, state)
    else balloonAttempt state holder .conquister now draws.balloon
  let outcome : ClaimResult :=
    { previousUserId := if !ambiguousLegacy state holder && counter state.telegramIds holder ≠ 0
        then counter state.telegramIds holder else hold.userId
      firstEntry := first
      sneaked := sneaked
      previousUsername := displayName state holder
      previousKey := holder }
  if attempt.1 = .held then
    let wait := penalty attempt.2 username rules
    .ok ({ outcome with
        status := .defended
        penaltySeconds := if wait > 0 then wait else 0
        nextChance := balloonPopChance attempt.2 holder },
      if wait > 0 then { attempt.2 with cooldowns := attempt.2.cooldowns.set username (now + wait) }
      else attempt.2)
  else
    let worn := if sneaked || first then attempt.2
      else { attempt.2 with balloons := attempt.2.balloons.erase holder }
    match settleHold worn hold now with
    | .error failure => .error failure
    | .ok (settled, paid) =>
      .ok (enter paid
        { outcome with
          balloonPopped := attempt.1 = .popped
          earned := settled.earned
          lightning := settled.lightning
          zodiacPercent := settled.zodiacPercent } userId username now rules)

/-- The wait he has left, after which nothing is kept of it. -/
def cooldownLeft (state : ConquisterState) (username : Str) (now : ℤ) : Option ℤ :=
  ((state.cooldowns.find username).filter fun until_ => until_ > now).map (· - now)

def claimFree (state : ConquisterState) (userId : ℤ) (username : Str) (now : ℤ) (rules : ClaimRules)
    (draws : ClaimDraws) : Except Failure (ClaimResult × ConquisterState) :=
  if whereabouts state username = .conquister then .ok ({ status := .alreadyHeld }, state)
  else if frozenFor state username now > 0 then
    .ok ({ status := .frozen, penaltySeconds := frozenFor state username now }, state)
  else match state.current.filter fun hold => hold.username ≠ [] with
    | none => .ok (enter state {} userId username now rules)
    | some hold => kick state hold userId username now rules draws

/-- A place is held by standing in it, not from the road. -/
def conquisterClaim (state : ConquisterState) (userId : ℤ) (username : Str) (now : ℤ)
    (rules : ClaimRules) (draws : ClaimDraws) : Except Failure (ClaimResult × ConquisterState) :=
  let known := rememberPlatform state username userId
  match raidOf known username with
  | some travelling =>
    .ok ({ status := .travelling, travelSeconds := max (travelling.back - now) 0 }, known)
  | none =>
    match cooldownLeft known username now with
    | some wait => .ok ({ status := .cooldown, penaltySeconds := wait }, known)
    | none => claimFree { known with cooldowns := known.cooldowns.erase username } userId username now
        rules draws

end

end NorelecBot
