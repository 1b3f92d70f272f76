import NorelecBot.Claim
import Mathlib.Data.Nat.Sqrt

/-! # Setting off, and turning back

A ride takes as long as the road between two houses, there and back again. Naming
himself is the way home: from the place at once, from the road after the road
already walked.
-/

namespace NorelecBot
open Lib

namespace Position

def planeSide : ℤ := 100000
def ids : ℤ := planeSide * planeSide
def shortestTravel : ℤ := 5

structure Point where
  x : ℤ := 0
  y : ℤ := 0
  deriving DecidableEq, Repr

def coordinatesOf (id : ℤ) : Point :=
  let place := (id.tmod ids + ids).tmod ids
  ⟨place.tmod planeSide, place.tdiv planeSide⟩

/-- The whole number nearest to a square root, which is never halfway between two. -/
def roundedRoot (square : ℕ) : ℕ :=
  if square > square.sqrt * square.sqrt + square.sqrt then square.sqrt + 1 else square.sqrt

def distance (first second : Point) : ℤ :=
  roundedRoot ((first.x - second.x).natAbs ^ 2 + (first.y - second.y).natAbs ^ 2)

def travelSeconds (distance divisor : ℤ) : ℤ :=
  if divisor ≤ 0 then shortestTravel else max shortestTravel (distance.tdiv divisor)

end Position

/-- The first number drawn that is nobody's id yet. -/
def freshId (ids : Counters) (draws : List ℕ) : Option ℤ :=
  (draws.map fun draw => (randomIndex draw Position.ids.toNat : ℤ)).find? fun drawn =>
    !ids.entries.any fun entry => entry.2 = drawn

/-- The id is drawn the first time the bot sees a player and never changes: it is where he lives. -/
def playerId (state : ConquisterState) (username : Str) (draws : List ℕ) :
    Except Failure (ℤ × ConquisterState) :=
  match state.ids.find username with
  | some found => .ok (found, state)
  | none =>
    match freshId state.ids draws with
    | none => .error .stuck
    | some drawn => .ok (drawn, { state with ids := state.ids.set username drawn })

inductive RaidStatus where
  | started
  | alreadyTravelling
  | holdingPlace
  | unknownTarget
  | leftPlace
  | comingHome
  | homeAlready
  | insufficientScore
  | invalidAmount
  | noSuchEmoji
  | noRoom
  | handsFull
  | frozen
  | protectedTarget
  deriving DecidableEq, Repr

structure RaidResult where
  status : RaidStatus := .started
  target : Str := []
  seconds : ℤ := 0
  earned : ℤ := 0
  lightning : ℤ := 0
  zodiacPercent : ℤ := 100
  score : ℤ := 0
  deriving DecidableEq, Repr

/-- The numbers drawn for the ids of the rider and of his target, as long as they are taken. -/
structure StartDraws where
  home : List ℕ
  theirs : List ℕ
  deriving Repr

/-- What somebody asks for when he sets off: for whom, and what he takes along. -/
structure Errand where
  target : Str
  kind : RaidTargetKind := .any
  gift : ℤ := 0
  giftEmoji : Str := []
  intact : Bool := false
  deriving DecidableEq, Repr

/-- Whether the line names the sender himself, by the name he shows. -/
def homewards (state : ConquisterState) (userId : ℤ) (username : Str) (errand : Errand) : Bool :=
  (match errand.kind with
    | .any => true
    | .telegram => userId ≠ 0
    | .irc => userId = 0) &&
    Text.equalsIgnoreCase (displayName state username) errand.target

/-- A blow, not a present: a robbery, or something thrown. -/
def Errand.blow (errand : Errand) : Bool :=
  errand.gift = 0 && (errand.giftEmoji = [] || (!errand.intact && isThrown errand.giftEmoji))

/-- He turns his back on the raid and rides home the way he came: what is left is the road already
walked. Both legs are the same length. -/
def Raid.left (raid : Raid) (now : ℤ) : ℤ :=
  if now < raid.arrive then max (now - (raid.arrive - (raid.back - raid.arrive))) 0
  else max (raid.back - now) 0

def Raid.turned (raid : Raid) (now : ℤ) : Raid :=
  { raid with arrived := true, back := now + raid.left now }

/-- Rewrites the first ride of a player. -/
def onFirst (raids : List Raid) (username : Str) (f : Raid → Raid) : List Raid :=
  match raids with
  | [] => []
  | raid :: rest => if raid.raider = username then f raid :: rest else raid :: onFirst rest username f

section
variable [SlotCodec]

/-- Naming yourself is the way home. -/
def rideHome (state : ConquisterState) (username : Str) (now : ℤ) :
    Except Failure (RaidResult × ConquisterState) :=
  match raidOf state username with
  | some travelling =>
    .ok ({ status := .comingHome, seconds := travelling.left now },
      { state with raids := onFirst state.raids username (·.turned now) })
  | none =>
    if whereabouts state username = .conquister then
      match leavePlace state now with
      | .error failure => .error failure
      | .ok (settled, away) =>
        .ok ({ status := .leftPlace, earned := settled.earned, lightning := settled.lightning,
               zodiacPercent := settled.zodiacPercent }, away)
    else .ok ({ status := .homeAlready }, state)

/-- Palle taken along leave home with him. -/
def takePalle (state : ConquisterState) (username : Str) (gift : ℤ) : ConquisterState :=
  if gift = 0 then state
  else { state with scores := state.scores.set username (counter state.scores username - gift) }

/-- Why an emoji cannot be taken along; nothing when it can. -/
def cannotCarry (state : ConquisterState) (username known : Str) (errand : Errand) (limit : ℕ) :
    Option RaidStatus :=
  if errand.giftEmoji = [] then none
  else
    let onHim := (gearSlotHolding state username errand.giftEmoji).isSome
    if ¬ onHim ∧ (slotHolding state username errand.giftEmoji).isNone then some .noSuchEmoji
    else if ¬ onHim ∧ (freeSlot (gearOf state username) carriedLimit).isNone then some .handsFull
    else if (errand.intact || !isThrown errand.giftEmoji) &&
        !canReceive state known errand.giftEmoji limit then some .noRoom
    else none

def takeAlong (state : ConquisterState) (username giftEmoji : Str) : ConquisterState :=
  if giftEmoji = [] then state else (takeEmoji state username giftEmoji).getD state

/-- The 🚀 he has on him as he leaves speed up both legs. -/
def rideSeconds (state : ConquisterState) (username : Str) (distance : ℤ) (rules : RaidRules) : ℤ :=
  let seconds := Position.travelSeconds distance rules.travelDivisor
  let rockets := carriedCopies state username .rocket
  if rockets > 0 ∧ rules.rocketPercent > 0 then
    max Position.shortestTravel ((seconds * 100).tdiv (100 + rockets * rules.rocketPercent))
  else seconds

def depart (state : ConquisterState) (outcome : RaidResult) (username known : Str) (now : ℤ)
    (rules : RaidRules) (errand : Errand) (draws : StartDraws) :
    Except Failure (RaidResult × ConquisterState) :=
  match playerId state username draws.home with
  | .error failure => .error failure
  | .ok (homeId, settled) =>
    match playerId settled known draws.theirs with
    | .error failure => .error failure
    | .ok (theirId, mapped) =>
      let seconds := rideSeconds mapped username
        (Position.distance (Position.coordinatesOf homeId) (Position.coordinatesOf theirId)) rules
      .ok ({ outcome with status := .started, target := displayName state known, seconds := seconds },
        { mapped with raids := mapped.raids ++
            [{ raider := username, target := known, arrive := now + seconds, back := now + 2 * seconds
               gift := errand.gift, giftEmoji := errand.giftEmoji, intact := errand.intact }] })

/-- What he takes along is taken, the palle first. -/
def load (state : ConquisterState) (username known : Str) (now : ℤ) (rules : RaidRules)
    (errand : Errand) (draws : StartDraws) : Except Failure (RaidResult × ConquisterState) :=
  let light := takePalle state username errand.gift
  let outcome : RaidResult :=
    { score := if errand.gift = 0 then 0 else counter state.scores username - errand.gift }
  match cannotCarry light username known errand rules.furnitureLimit with
  | some status => .ok ({ outcome with status := status }, light)
  | none => depart (takeAlong light username errand.giftEmoji) outcome username known now rules errand draws

/-- A player at home, or in the place, sets off for somebody else. -/
def setOff (state : ConquisterState) (username known : Str) (now : ℤ) (rules : RaidRules)
    (errand : Errand) (draws : StartDraws) : Except Failure (RaidResult × ConquisterState) :=
  match raidOf state username with
  | some travelling =>
    .ok ({ status := .alreadyTravelling, seconds := max (travelling.back - now) 0 }, state)
  | none =>
    if errand.blow && newcomer state known now then
      .ok ({ status := .protectedTarget, target := displayName state known
             seconds := newcomerSeconds - (now - counter state.joined known) }, state)
    else if frozenFor state username now > 0 then
      .ok ({ status := .frozen, seconds := frozenFor state username now }, state)
    else if whereabouts state username = .conquister then .ok ({ status := .holdingPlace }, state)
    else if errand.gift < 0 then .ok ({ status := .invalidAmount }, state)
    else if errand.gift > 0 ∧ errand.gift > counter state.scores username then
      .ok ({ status := .insufficientScore, score := counter state.scores username }, state)
    else load state username known now rules errand draws

def raidStart (state : ConquisterState) (userId : ℤ) (username : Str) (now : ℤ) (rules : RaidRules)
    (errand : Errand) (draws : StartDraws) : Except Failure (RaidResult × ConquisterState) :=
  let known := rememberPlatform state username userId
  if homewards known userId username errand then rideHome known username now
  else match playerByName known errand.target errand.kind with
    | none => .ok ({ status := .unknownTarget }, known)
    | some target => setOff known username target now rules errand draws

end

end NorelecBot
