import NorelecBot.House

/-! # What is thrown, and where it lands

Something thrown lands where somebody is, his house or the place, and works on
what is there. A ☢️ starts one player over, or on the place the whole game.
-/

namespace NorelecBot
open Lib

/-- The numbers of the configuration a ride or a throw depends on. -/
structure RaidRules where
  lootDivisor : ℤ := 50
  travelDivisor : ℤ := 1000
  furnitureLimit : ℕ := 10
  smearedSeconds : ℤ := 86400
  rocketPercent : ℤ := 0
  pleadingPercent : ℤ := 0
  bombDudPercent : ℤ := 0
  dogPercent : ℤ := 0
  mailboxPercent : ℤ := 0
  ninjaPercent : ℤ := 0
  alarmPercent : ℤ := 0
  piratePercent : ℤ := 0
  pregnancySeconds : ℤ := 9 * 60 * 60
  childStageSeconds : ℤ := 24 * 60 * 60
  henPerMinute : ℤ := 0
  matingPercent : ℤ := 0
  dinoPercent : ℤ := 0
  saltPercent : ℤ := 0
  frozenSeconds : ℤ := 300
  firePercent : ℤ := 0
  goldenHour : ℤ := -1
  deriving DecidableEq, Repr

structure Landing where
  smeared : Bool := false
  backfired : Bool := false
  reset : Bool := false
  expecting : ℤ := 0
  froze : ℤ := 0
  melted : Bool := false
  blown : List Str := []
  deriving DecidableEq, Repr

/-- The numbers drawn for a landing: whether a 💣 is a dud, and what it takes. -/
structure LandDraws where
  dud : ℕ
  hit : ℕ
  deriving Repr

section
variable [SlotCodec]

def isSmeared (state : ConquisterState) (player : Str) (now : ℤ) : Bool :=
  counter state.smeared player > now

def isPugliese (state : ConquisterState) (player : Str) : Bool := (state.pugliesi.find player).isSome

/-- Seconds until a player hit by a 🧊 thaws; 0 when he is not frozen. -/
def frozenFor (state : ConquisterState) (player : Str) (now : ℤ) : ℤ :=
  max (counter state.frozen player - now) 0

def smear (state : ConquisterState) (player : Str) (now seconds : ℤ) : ConquisterState :=
  if seconds > 0 then { state with smeared := state.smeared.set player (now + seconds) } else state

def balloonOn (place : Authors) (player : Str) : Authors := place.set player Power.balloon.emoji

/-- A ☢️ on the place starts the game over: everybody as he first started, with a 🎈. -/
def startOver (state : ConquisterState) : ConquisterState :=
  { state with
    scores := state.scores.mapVals fun _ => 0
    current := none
    furniture := .empty
    equipped := (knownPlayers { state with scores := state.scores.mapVals fun _ => 0 }).foldl
      balloonOn .empty
    raids := []
    balloons := .empty
    cooldowns := .empty
    smeared := .empty
    frozen := .empty
    pregnancies := []
    children := []
    knocks := []
    pugliesi := .empty }

def Raid.calledOff (raid : Raid) (now : ℤ) : Raid :=
  { raid with arrived := true, back := now, loot := 0, gift := 0, giftEmoji := [] }

def callOff (raids : List Raid) (player : Str) (now : ℤ) : List Raid :=
  raids.map fun raid => if raid.raider = player then raid.calledOff now else raid

def zeroScore (scores : Counters) (player : Str) : Counters :=
  if (scores.find player).isSome then scores.set player 0 else scores

/-- On a house it does the same to the one who lives there; a ride of his is over now, and the keeper
settles it as a homecoming. -/
def startOverFor (state : ConquisterState) (player : Str) (now : ℤ) : ConquisterState :=
  { hang state player [] with
    scores := zeroScore state.scores player
    current := if whereabouts state player = .conquister then none else state.current
    raids := callOff state.raids player now
    equipped := balloonOn state.equipped player
    pregnancies := state.pregnancies.filter fun pregnancy => pregnancy.mother ≠ player
    children := state.children.filter fun child => child.owner ≠ player
    balloons := state.balloons.erase player
    cooldowns := state.cooldowns.erase player
    smeared := state.smeared.erase player }

/-- The slots of a place whose emoji pass a test, in their order. -/
def slotsWhere (slots : List Str) (test : ℕ → Str → Bool) : List ℕ :=
  (List.range slots.length).filter fun slot => test slot (slotAt slots slot)

/-- No explosion takes what is untouchable. -/
def exposed (emoji : Str) : Bool :=
  emoji ≠ [] && match powerOf emoji with
    | some power => !power.untouchable
    | none => false

/-- A 💣 going off takes one emoji with a power among those that are there. -/
def blowUp (state : ConquisterState) (target : Str) (onHim : Bool) (draw : ℕ) :
    List Str × ConquisterState :=
  let slots := if onHim then gearOf state target else slotsOf state target
  let there := slotsWhere slots fun _ emoji => exposed emoji
  if there = [] then ([], state)
  else
    let hit := there.getD (randomIndex draw there.length) 0
    ([slotAt slots hit],
      if onHim then hangGear state target (slots.set hit []) else hang state target (slots.set hit []))

/-- A thrown emoji lands where somebody is, and works on what is there. -/
def land (state : ConquisterState) (thrown thrower victim : Str) (site : Whereabouts) (now : ℤ)
    (rules : RaidRules) (draws : LandDraws) : Landing × ConquisterState :=
  if isPower thrown .poo then ({ smeared := true }, smear state victim now rules.smearedSeconds)
  else if isPower thrown .bomb then
    if rules.bombDudPercent > 0 ∧ wins draws.dud rules.bombDudPercent then
      ({ backfired := true, blown := (blowUp state thrower true draws.hit).1 },
        (blowUp state thrower true draws.hit).2)
    else
      ({ blown := (blowUp state victim (site = .conquister) draws.hit).1 },
        (blowUp state victim (site = .conquister) draws.hit).2)
  else if isPower thrown .nuke then ({ reset := true }, startOverFor state victim now)
  else if isPower thrown .seed then
    let wait := max rules.pregnancySeconds 0
    ({ expecting := max wait 1 },
      { state with pregnancies := state.pregnancies ++ [⟨victim, thrower, now + wait⟩] })
  else if isPower thrown .ice then
    let melt := upToAll (carriedCopies state victim .fire) rules.firePercent
    let froze := (max rules.frozenSeconds 0 * (100 - melt)).tdiv 100
    ({ melted := 0 < melt, froze := froze },
      if 0 < froze then { state with frozen := state.frozen.set victim (now + froze) } else state)
  else ({}, state)

inductive FurnitureBurnStatus where
  | burned
  | notOwned
  | travelling
  | child
  deriving DecidableEq, Repr

structure FurnitureBurnResult where
  status : FurnitureBurnStatus := .burned
  shown : Str := []
  hit : Str := []
  hitOnTelegram : Bool := false
  hitFurniture : Str := []
  hitBefore : Str := []
  blown : List Str := []
  backfired : Bool := false
  reset : Bool := false
  expecting : ℤ := 0
  froze : ℤ := 0
  melted : Bool := false
  deriving DecidableEq, Repr

/-- Whoever holds the place, unless it is the thrower himself. -/
def otherHolder (state : ConquisterState) (player : Str) : Option Str :=
  (state.current.map Holder.username).filter fun holder => holder ≠ [] && holder ≠ player

/-- Thrown at the place, it lands on whoever holds it. -/
def throwAtPlace (state : ConquisterState) (player emoji : Str) (now : ℤ) (rules : RaidRules)
    (draws : LandDraws) : FurnitureBurnResult × ConquisterState :=
  match (if isThrown emoji then otherHolder state player else none) with
  | none => ({ shown := shownGear state player }, state)
  | some holder =>
    let landed := land state emoji player holder .conquister now rules draws
    ({ hitBefore := worn state holder
       backfired := landed.1.backfired
       expecting := landed.1.expecting
       froze := landed.1.froze
       melted := landed.1.melted
       blown := landed.1.blown
       shown := shownGear landed.2 player
       hit := displayName landed.2 holder
       hitOnTelegram := counter landed.2.telegramIds holder ≠ 0
       hitFurniture := worn landed.2 holder }, landed.2)

/-- The ⚡ the holder has left are counted last. -/
def thenLoseBolts {α : Type} (outcome : α) (state : ConquisterState) (now : ℤ) :
    Except Failure (α × ConquisterState) :=
  match loseBolts state now with
  | .error failure => .error failure
  | .ok settled => .ok (outcome, settled)

def furnitureBurn (state : ConquisterState) (player emoji : Str) (now : ℤ) (rules : RaidRules)
    (destroy : Bool) (draws : LandDraws) : Except Failure (FurnitureBurnResult × ConquisterState) :=
  if onTheRoad state player then .ok ({ status := .travelling }, state)
  else match takeEmoji state player emoji with
    | none =>
      if ¬ namesChild state player emoji then .ok ({ status := .notOwned }, state)
      else if ¬ destroy then .ok ({ status := .child }, state)
      else .ok ({ shown := shownGear (burnChild state player emoji) player },
        burnChild state player emoji)
    | some taken =>
      if destroy then thenLoseBolts { shown := shownGear taken player } taken now
      else if isPower emoji .nuke then .ok ({ reset := true }, startOver taken)
      else thenLoseBolts (throwAtPlace taken player emoji now rules draws).1
        (throwAtPlace taken player emoji now rules draws).2 now

end

end NorelecBot
