import NorelecBot.Ride

/-! # What time brings: eggs, children, arrivals and homecomings

The keeper walks the list of rides once. A ride that has reached its target is
settled there, and one that is back is settled at home; landings on other rides
rewrite the list while it is walked, so every ride is read again where it stands.
-/

namespace NorelecBot
open Lib

inductive RaidEventKind where
  | stolen
  | delivered
  | returned
  | born
  | gone
  deriving DecidableEq, Repr

structure RaidEvent where
  kind : RaidEventKind := .stolen
  raider : Str := []
  target : Str := []
  loot : ℤ := 0
  intercepted : Bool := false
  sneaked : Bool := false
  alarmed : Bool := false
  boarded : Str := []
  eaten : Str := []
  salted : ℤ := 0
  spared : ℤ := 0
  pleadedPercent : ℤ := 0
  gift : ℤ := 0
  giftEmoji : Str := []
  noRoom : Bool := false
  intact : Bool := false
  giftWithHim : Bool := false
  blown : List Str := []
  backfired : Bool := false
  reset : Bool := false
  expecting : ℤ := 0
  froze : ℤ := 0
  melted : Bool := false
  nobodyHome : Bool := false
  sentBack : Bool := false
  raiderEmoji : Str := []
  targetEmoji : Str := []
  raiderEmojiBefore : Option Str := none
  targetEmojiBefore : Option Str := none
  raiderSmeared : Bool := false
  targetSmeared : Bool := false
  raiderPugliese : Bool := false
  targetPugliese : Bool := false
  distance : ℤ := 0
  seconds : ℤ := 0
  raiderPercent : ℤ := 100
  targetPercent : ℤ := 100
  undefended : Bool := false
  golden : Bool := false
  balloonHeld : Bool := false
  balloonPopped : Bool := false
  nextChance : ℤ := 0
  targetOnTelegram : Bool := false
  raiderOnTelegram : Bool := false
  deriving DecidableEq, Repr

/-- The numbers drawn for one ride, a field for each time one is drawn. -/
structure RaidDraws where
  jaws : ℕ
  eaten : ℕ
  mailbox : ℕ
  landing : LandDraws
  stealth : ℕ
  balloon : ℕ
  dog : ℕ
  raiderId : List ℕ
  targetId : List ℕ
  boarding : ℕ
  boarded : ℕ
  deriving Repr

structure BirthDraws where
  sex : ℕ
  place : ℕ
  deriving Repr

/-- The numbers drawn in one round: for each child of the list, each pregnancy and each ride. -/
structure DueDraws where
  courting : ℕ → ℕ
  birth : ℕ → BirthDraws
  ride : ℕ → RaidDraws

def saltSeconds : ℤ := 5 * 60

section
variable [SlotCodec]

/-- Whoever is clean again, or thawed, loses his entry. -/
def wash (state : ConquisterState) (now : ℤ) : ConquisterState :=
  { state with
    smeared := state.smeared.filter fun _ due => ¬ due ≤ now
    frozen := state.frozen.filter fun _ due => ¬ due ≤ now }

def eggsLaid (state : ConquisterState) (minutes : ℤ) (rules : RaidRules) : List (Str × ℤ) :=
  (state.furniture.keys.filter fun player => 0 < houseCopies state player .hen).map fun player =>
    (player, houseCopies state player .hen * rules.henPerMinute * minutes)

def payEggs (scores : Counters) (laid : Str × ℤ) : Counters :=
  scores.set laid.1 (counter scores laid.1 + laid.2)

/-- Whole minutes only, the rest waits for the next round. -/
def eggMinutes (state : ConquisterState) (now : ℤ) (rules : RaidRules) : ℤ :=
  if rules.henPerMinute ≤ 0 ∨ state.eggsAt ≤ 0 ∨ state.eggsAt > now then 0
  else (now - state.eggsAt).tdiv 60

def layEggs (state : ConquisterState) (now : ℤ) (rules : RaidRules) : ConquisterState :=
  if rules.henPerMinute ≤ 0 then state
  else if state.eggsAt ≤ 0 ∨ state.eggsAt > now then { state with eggsAt := now }
  else if eggMinutes state now rules ≤ 0 then state
  else
    { state with
      eggsAt := state.eggsAt + eggMinutes state now rules * 60
      scores := (eggsLaid state (eggMinutes state now rules) rules).foldl payEggs state.scores }

def boyLooks : List Str := [utf8 "👶", utf8 "👦", utf8 "👨", utf8 "👴"]
def girlLooks : List Str := [utf8 "👶", utf8 "👧", utf8 "👩", utf8 "👵"]

/-- What a child looks like at each of its ages; nothing once it has lived them all. -/
def childEmoji (male : Bool) (age : ℤ) : Str :=
  if age < 0 then [] else (if male then boyLooks else girlLooks).getD age.toNat []

def Child.age (child : Child) (now : ℤ) (rules : RaidRules) : ℤ :=
  (max (now - child.born) 0).tdiv (max rules.childStageSeconds 1)

/-- One child grows where it was born, or leaves after its last age; whether it stays. -/
def growOne (state : ConquisterState) (now : ℤ) (rules : RaidRules) (child : Child) :
    Bool × List RaidEvent × ConquisterState :=
  let looks := childEmoji child.male (child.age now rules)
  let slots := slotsOf state child.owner
  let slot := child.slot.toNat
  if child.slot < 0 ∨ slotAt slots slot = [] then (false, [], state)
  else if looks = [] then
    let after := hang state child.owner (slots.set slot [])
    (false,
      [{ kind := .gone
         target := displayName state child.owner
         targetOnTelegram := counter state.telegramIds child.owner ≠ 0
         giftEmoji := slotAt slots slot
         targetEmoji := worn after child.owner }], after)
  else if slotAt slots slot ≠ looks then
    (true, [], hang state child.owner (slots.set slot looks))
  else (true, [], state)

def growAll (now : ℤ) (rules : RaidRules) :
    List Child → ConquisterState → List Child × List RaidEvent × ConquisterState
  | [], state => ([], [], state)
  | child :: children, state =>
    let one := growOne state now rules child
    let rest := growAll now rules children one.2.2
    (if one.1 then child :: rest.1 else rest.1, one.2.1 ++ rest.2.1, rest.2.2)

def Child.grown (child : Child) (now : ℤ) (rules : RaidRules) : Bool := child.age now rules = 2

/-- Whether a girl has her one chance now: she is grown up and so is a boy under the same roof. -/
def courtable (staying : List Child) (now : ℤ) (rules : RaidRules) (girl : Child) : Bool :=
  !girl.male && !girl.courted && girl.grown now rules &&
    staying.any fun other => other.male && other.owner = girl.owner && other.grown now rules

def court (staying : List Child) (now : ℤ) (rules : RaidRules) (girl : Child) : Child :=
  if courtable staying now rules girl then { girl with courted := true } else girl

/-- The children on the way after every girl had her chance, with her number of the draws. -/
def conceived (staying : List Child) (now : ℤ) (rules : RaidRules) (draws : ℕ → ℕ) : List Pregnancy :=
  (List.range staying.length).flatMap fun index =>
    match staying[index]? with
    | none => []
    | some girl =>
      if courtable staying now rules girl ∧ rules.matingPercent > 0 ∧
          wins (draws index) rules.matingPercent then
        [{ mother := girl.owner, father := [], due := now + max rules.pregnancySeconds 0 }]
      else []

def grow (state : ConquisterState) (now : ℤ) (rules : RaidRules) (draws : ℕ → ℕ) :
    List RaidEvent × ConquisterState :=
  match growAll now rules state.children state with
  | (staying, gone, grownUp) =>
    (gone,
      { grownUp with
        pregnancies := grownUp.pregnancies ++ conceived staying now rules draws
        children := staying.map (court staying now rules) })

/-- Where a newborn goes: the first empty slot or, in a full house, the place of an emoji drawn among
those nobody minds. -/
def cradle (state : ConquisterState) (mother : Str) (limit draw : ℕ) : Option ℕ :=
  match freeSlot (slotsOf state mother) limit with
  | some slot => some slot
  | none =>
    let others := slotsWhere (slotsOf state mother) fun slot emoji =>
      !untouchable emoji && !isChild state mother slot
    if others = [] then none else some (others.getD (randomIndex draw others.length) 0)

def birth (state : ConquisterState) (pregnancy : Pregnancy) (now : ℤ) (rules : RaidRules)
    (draws : BirthDraws) : List RaidEvent × ConquisterState :=
  let mother := pregnancy.mother
  let male : Bool := randomIndex draws.sex 2 = 0
  match cradle state mother rules.furnitureLimit draws.place with
  | none => ([], state)
  | some place =>
    let after := { hang state mother (fillSlot (slotsOf state mother) place (childEmoji male 0)) with
      children := state.children ++ [{ owner := mother, slot := place, male := male, born := now }] }
    ([{ kind := .born
        raider := if pregnancy.father = [] then [] else displayName state pregnancy.father
        raiderOnTelegram := pregnancy.father ≠ [] && counter state.telegramIds pregnancy.father ≠ 0
        target := displayName state mother
        targetOnTelegram := counter state.telegramIds mother ≠ 0
        giftEmoji := childEmoji male 0
        gift := if male then 1 else 0
        blown := if (freeSlot (slotsOf state mother) rules.furnitureLimit).isSome then []
          else [slotAt (slotsOf state mother) place]
        targetEmoji := worn after mother }], after)

def birthsFrom (now : ℤ) (rules : RaidRules) (draws : ℕ → BirthDraws) :
    List Pregnancy → ℕ → ConquisterState → List RaidEvent × ConquisterState
  | [], _, state => ([], state)
  | pregnancy :: pregnancies, index, state =>
    if pregnancy.due > now then birthsFrom now rules draws pregnancies (index + 1) state
    else
      let one := birth state pregnancy now rules (draws index)
      let rest := birthsFrom now rules draws pregnancies (index + 1) one.2
      (one.1 ++ rest.1, rest.2)

/-- The children whose time has come are born; the others wait. -/
def births (state : ConquisterState) (now : ℤ) (rules : RaidRules) (draws : ℕ → BirthDraws) :
    List RaidEvent × ConquisterState :=
  let born := birthsFrom now rules draws state.pregnancies 0 state
  (born.1, { born.2 with pregnancies := state.pregnancies.filter fun pregnancy => pregnancy.due > now })

def sameKnock (raider target : Str) (knock : Knock) : Bool :=
  knock.raider = raider && knock.target = target

/-- What the 🧂 of a house take off a raider who comes again so soon. -/
def saltPaid (state : ConquisterState) (raider : Str) (share : ℤ) : ℤ :=
  (max (counter state.scores raider) 0 * share).tdiv 100

def payTo (scores : Counters) (raider target : Str) (his paid : ℤ) : Counters :=
  (scores.set raider (his - paid)).set target (counter (scores.set raider (his - paid)) target + paid)

/-- Once he has paid, the house starts counting him afresh. -/
def salt (state : ConquisterState) (raider target : Str) (now : ℤ) (rules : RaidRules) :
    ℤ × ConquisterState :=
  let recent := state.knocks.filter fun knock => ¬ now - knock.stamp > saltSeconds
  let share := upToAll (houseCopies state target .salt) rules.saltPercent
  if share ≤ 0 ∨ ¬ recent.any (sameKnock raider target) then
    (0, { state with knocks := recent ++ [⟨raider, target, now⟩] })
  else
    let paid := saltPaid state raider share
    (paid,
      { state with
        knocks := recent.filter fun knock => ¬ sameKnock raider target knock
        scores := payTo state.scores raider target (max (counter state.scores raider) 0) paid })

/-- The 🦖 of the house may eat one of the emoji the raider has on him. -/
def jaws (state : ConquisterState) (raider target : Str) (rules : RaidRules) (draws : RaidDraws) :
    List Str × ConquisterState :=
  let chance := upToAll (houseCopies state target .dino) rules.dinoPercent
  if chance > 0 ∧ wins draws.jaws chance then blowUp state raider true draws.eaten else ([], state)

/-- Rewrites the ride at an index of the list. -/
def onRide (state : ConquisterState) (index : ℕ) (f : Raid → Raid) : ConquisterState :=
  { state with raids := state.raids.modify index f }

def Raid.reached (raid : Raid) : Raid := { raid with arrived := true }
def Raid.withLoot (raid : Raid) (loot : ℤ) : Raid := { raid with loot := loot }
def Raid.withoutGift (raid : Raid) : Raid := { raid with gift := 0 }
def Raid.withoutEmoji (raid : Raid) : Raid := { raid with giftEmoji := [] }

def arrivalEvent (state : ConquisterState) (raid : Raid) (now : ℤ) : RaidEvent :=
  { kind := .stolen
    raider := displayName state raid.raider
    target := displayName state raid.target
    seconds := max (raid.back - now) 0
    targetOnTelegram := counter state.telegramIds raid.target ≠ 0
    raiderOnTelegram := counter state.telegramIds raid.raider ≠ 0
    raiderEmoji := worn state raid.raider
    targetEmoji := worn state raid.target
    raiderSmeared := isSmeared state raid.raider now
    targetSmeared := isSmeared state raid.target now
    raiderPugliese := isPugliese state raid.raider
    targetPugliese := isPugliese state raid.target }

/-- The 🥷 a raider has on him may take him past what guards the house; the 🔊 there may give him away.
Whether he sneaked in, and whether it was the alarm. -/
def sneaks (state : ConquisterState) (raid : Raid) (now : ℤ) (rules : RaidRules) (draw : ℕ) :
    Bool × Bool :=
  let guarded := balloonThere state raid.target .home now || 0 < houseCopies state raid.target .dog
  let chance := upToAll (carriedCopies state raid.raider .ninja) rules.ninjaPercent
  if ¬ guarded ∨ chance ≤ 0 then (false, false)
  else
    let quiet := max 0 (chance - houseCopies state raid.target .alarm * max rules.alarmPercent 0)
    (wins draw quiet, !wins draw quiet && wins draw chance)

/-- A raid meets the 🎈 that is at the house first; whether it held. -/
def defendedAtHome (state : ConquisterState) (target : Str) (event : RaidEvent) (now : ℤ) (draw : ℕ) :
    Bool × RaidEvent × ConquisterState :=
  match balloonAttempt state target .home now draw with
  | (.held, after) =>
    (true, { event with balloonHeld := true, nextChance := balloonPopChance after target }, after)
  | (.popped, after) => (false, { event with balloonPopped := true }, after)
  | (.none, after) => (false, event, after)

/-- A raid that got through may carry off an emoji too, for the 🏴‍☠️ the raider has on him. -/
def board (state : ConquisterState) (raid : Raid) (rules : RaidRules) (draws : RaidDraws) :
    Str × ConquisterState :=
  let chance := upToAll (carriedCopies state raid.raider .pirate) rules.piratePercent
  if chance ≤ 0 ∨ ¬ wins draws.boarding chance ∨
      (freeSlot (gearOf state raid.raider) carriedLimit).isNone then ([], state)
  else
    let slots := slotsOf state raid.target
    let there := slotsWhere slots fun slot emoji =>
      emoji ≠ [] && !isChild state raid.target slot && !untouchable emoji
    if there = [] then ([], state)
    else
      let taken := there.getD (randomIndex draws.boarded there.length) 0
      let left := hang state raid.target (slots.set taken [])
      (slotAt slots taken, (putOn left raid.raider (slotAt slots taken)).getD left)

/-- What the road between the two lets him carry off, and what the 🥺 of the house talk him out of. -/
def loot (state : ConquisterState) [Clock] (raid : Raid) (event : RaidEvent) (distance now : ℤ)
    (rules : RaidRules) : RaidEvent :=
  let theirs := counter state.scores raid.target
  let walked := if rules.lootDivisor > 0 then distance.tdiv rules.lootDivisor else distance
  let golden := 0 ≤ rules.goldenHour && Clock.localHour now = rules.goldenHour
  let carried := (walked * dayPercent).tdiv dayPercent * (if golden then 2 else 1)
  let taken := min theirs carried
  let pleaded := upToAll (houseCopies state raid.target .pleading) rules.pleadingPercent
  let spared := (taken * pleaded).tdiv 100
  { event with
    distance := distance
    raiderPercent := dayPercent
    targetPercent := dayPercent
    golden := golden
    pleadedPercent := pleaded
    spared := spared
    loot := taken - spared }

/-- The palle leave the target as the ride takes them. -/
def takeLoot (state : ConquisterState) (index : ℕ) (target : Str) (amount : ℤ) : ConquisterState :=
  onRide
    (if amount > 0 then
      { state with scores := state.scores.set target (counter state.scores target - amount) }
    else state) index (·.withLoot amount)

/-- Nothing kept him out: he robs the house, and may board it. -/
def rob [Clock] (state : ConquisterState) (index : ℕ) (raid : Raid) (event : RaidEvent) (now : ℤ)
    (rules : RaidRules) (draws : RaidDraws) : Except Failure (RaidEvent × ConquisterState) :=
  match playerId state raid.raider draws.raiderId with
  | .error failure => .error failure
  | .ok (fromId, settled) =>
    match playerId settled raid.target draws.targetId with
    | .error failure => .error failure
    | .ok (toId, mapped) =>
      let looted := loot mapped raid
        { event with undefended := ¬ atHome state raid.target }
        (Position.distance (Position.coordinatesOf fromId) (Position.coordinatesOf toId)) now rules
      let robbed := takeLoot mapped index raid.target looted.loot
      let boarded := board robbed raid rules draws
      .ok (if boarded.1 = [] then looted else
          { looted with
            boarded := boarded.1
            raiderEmoji := worn boarded.2 raid.raider
            targetEmoji := worn boarded.2 raid.target }, boarded.2)

/-- Whoever came to rob meets what guards the house: the 🎈, then the 🐶. -/
def raidHouse [Clock] (state : ConquisterState) (index : ℕ) (raid : Raid) (event : RaidEvent) (now : ℤ)
    (rules : RaidRules) (draws : RaidDraws) : Except Failure (RaidEvent × ConquisterState) :=
  let stealth := sneaks state raid now rules draws.stealth
  let coming := { event with sneaked := stealth.1, alarmed := stealth.2 }
  let guarded := if stealth.1 then (false, coming, state)
    else defendedAtHome state raid.target coming now draws.balloon
  if guarded.1 then .ok (guarded.2.1, onRide guarded.2.2 index (·.withLoot 0))
  else
    let chance := if stealth.1 then 0
      else upToAll (houseCopies guarded.2.2 raid.target .dog) rules.dogPercent
    if chance > 0 ∧ wins draws.dog chance then
      .ok ({ guarded.2.1 with intercepted := true }, onRide guarded.2.2 index (·.withLoot 0))
    else rob guarded.2.2 index raid guarded.2.1 now rules draws

/-- Whoever comes to rob pays the salt and may meet the 🦖, whatever else happens to him there. -/
def atTheDoor (state : ConquisterState) (raid : Raid) (event : RaidEvent) (now : ℤ) (rules : RaidRules)
    (draws : RaidDraws) : RaidEvent × ConquisterState :=
  let salted := salt state raid.raider raid.target now rules
  let eaten := jaws salted.2 raid.raider raid.target rules draws
  match eaten.1 with
  | [] => ({ event with salted := salted.1 }, eaten.2)
  | emoji :: _ =>
    ({ event with salted := salted.1, eaten := emoji, raiderEmoji := worn eaten.2 raid.raider }, eaten.2)

/-- The palle he came to give are handed over. -/
def deliverPalle (state : ConquisterState) (index : ℕ) (raid : Raid) : ConquisterState :=
  if raid.gift > 0 then
    onRide { state with
      scores := state.scores.set raid.target (counter state.scores raid.target + raid.gift) }
      index (·.withoutGift)
  else state

/-- The 📮 at the house may send it back: it then lands on the raider's own house, as it is. -/
def sentBack (state : ConquisterState) (raid : Raid) (rules : RaidRules) (draw : ℕ) : Bool :=
  let chance := upToAll (houseCopies state raid.target .mailbox) rules.mailboxPercent
  0 < chance && wins draw chance

/-- Who something thrown at a house lands on. -/
def struck (raid : Raid) (back : Bool) : Str := if back then raid.raider else raid.target

def throwAtHouse (state : ConquisterState) (index : ℕ) (raid : Raid) (event : RaidEvent) (now : ℤ)
    (rules : RaidRules) (draws : RaidDraws) : RaidEvent × ConquisterState :=
  let back := sentBack state raid rules draws.mailbox
  let landed := land state raid.giftEmoji raid.raider (struck raid back) .home now
    (if back then { rules with bombDudPercent := 0 } else rules) draws.landing
  let after := onRide landed.2 index (·.withoutEmoji)
  ({ event with
      sentBack := back
      raiderSmeared := event.raiderSmeared || (back && landed.1.smeared)
      targetSmeared := event.targetSmeared || (!back && landed.1.smeared)
      raiderPugliese := isPugliese landed.2 raid.raider
      targetPugliese := isPugliese landed.2 raid.target
      backfired := landed.1.backfired
      reset := landed.1.reset
      expecting := landed.1.expecting
      froze := landed.1.froze
      melted := landed.1.melted
      blown := landed.1.blown
      raiderEmoji := worn after raid.raider
      targetEmoji := worn after raid.target }, after)

def Raid.throws (raid : Raid) : Bool := isThrown raid.giftEmoji && !raid.intact

def deliverEmoji (state : ConquisterState) (index : ℕ) (raid : Raid) (event : RaidEvent) (now : ℤ)
    (rules : RaidRules) (draws : RaidDraws) : RaidEvent × ConquisterState :=
  let carrying := { event with giftEmoji := raid.giftEmoji, intact := raid.intact }
  if raid.throws && isPower raid.giftEmoji .seed && !decide (atHome state raid.target) then
    -- It takes somebody to land on: with the owner out, it goes back as it came.
    ({ carrying with nobodyHome := true }, state)
  else if raid.throws then throwAtHouse state index raid carrying now rules draws
  else match receive state raid.target raid.giftEmoji rules.furnitureLimit with
    | some (onHim, kept) =>
      ({ carrying with giftWithHim := onHim, targetEmoji := worn kept raid.target },
        onRide kept index (·.withoutEmoji))
    | none => ({ carrying with noRoom := true }, state)

def deliver (state : ConquisterState) (index : ℕ) (raid : Raid) (event : RaidEvent) (now : ℤ)
    (rules : RaidRules) (draws : RaidDraws) : RaidEvent × ConquisterState :=
  let bringing := { event with kind := .delivered, gift := raid.gift }
  let paid := deliverPalle state index raid
  if raid.giftEmoji = [] then (bringing, paid) else deliverEmoji paid index raid bringing now rules draws

def noteChanges (event : RaidEvent) (raid : Raid) (then_ : RaidEvent) (state : ConquisterState) :
    RaidEvent :=
  let raiders := if worn state raid.raider ≠ then_.raiderEmoji then
      { event with
        raiderEmoji := worn state raid.raider
        raiderEmojiBefore := some then_.raiderEmoji }
    else event
  if worn state raid.target ≠ then_.targetEmoji then
    { raiders with
      targetEmoji := worn state raid.target
      targetEmojiBefore := some then_.targetEmoji }
  else raiders

/-- Whether a ride brings something, rather than coming to rob. -/
def Raid.brings (raid : Raid) : Bool := 0 < raid.gift || raid.giftEmoji ≠ []

def arrival [Clock] (state : ConquisterState) (index : ℕ) (raid : Raid) (now : ℤ) (rules : RaidRules)
    (draws : RaidDraws) : Except Failure (RaidEvent × ConquisterState) :=
  let there := onRide state index Raid.reached
  let event := arrivalEvent there raid now
  let met := if raid.gift = 0 ∧ raid.giftEmoji = [] then atTheDoor there raid event now rules draws
    else (event, there)
  match (if raid.brings then .ok (deliver met.2 index raid met.1 now rules draws)
      else raidHouse met.2 index raid met.1 now rules draws) with
  | .error failure => .error failure
  | .ok (outcome, after) => .ok (noteChanges outcome raid event after, after)

/-- The emoji nobody took comes back on him, or in the house if he has no room. -/
def bringBack (state : ConquisterState) (raider giftEmoji : Str) : ConquisterState :=
  if giftEmoji = [] then state
  else match putOn state raider giftEmoji with
    | some worn => worn
    | none =>
      (putInHouse state raider giftEmoji ((slotsOf state raider).length + 1)).getD state

/-- The loot, plus the palle nobody received because he turned back. -/
def bringPalle (state : ConquisterState) (raid : Raid) : ConquisterState :=
  if raid.loot + raid.gift > 0 then
    { state with
      scores := state.scores.set raid.raider (counter state.scores raid.raider + (raid.loot + raid.gift)) }
  else state

def homecoming (state : ConquisterState) (raid : Raid) (now : ℤ) : RaidEvent × ConquisterState :=
  let after := bringBack (bringPalle state raid) raid.raider raid.giftEmoji
  ({ kind := .returned
     raider := displayName after raid.raider
     target := displayName after raid.target
     loot := raid.loot
     gift := raid.gift
     giftEmoji := raid.giftEmoji
     raiderEmoji := worn after raid.raider
     targetEmoji := worn after raid.target
     raiderSmeared := isSmeared after raid.raider now
     targetSmeared := isSmeared after raid.target now
     raiderPugliese := isPugliese after raid.raider
     targetPugliese := isPugliese after raid.target
     raiderOnTelegram := counter after.telegramIds raid.raider ≠ 0 }, after)

def Raid.over (raid : Raid) (now : ℤ) : Bool := raid.arrived && raid.back ≤ now

/-- Whether a ride reaches its target by now. -/
def Raid.due (raid : Raid) (now : ℤ) : Bool := !raid.arrived && raid.arrive ≤ now

def settleArrival [Clock] (state : ConquisterState) (index : ℕ) (now : ℤ) (rules : RaidRules)
    (draws : RaidDraws) : Except Failure (List RaidEvent × ConquisterState) :=
  match state.raids[index]? with
  | none => .ok ([], state)
  | some raid =>
    if raid.due now then
      match arrival state index raid now rules draws with
      | .error failure => .error failure
      | .ok (event, after) => .ok ([event], after)
    else .ok ([], state)

def settleHomecoming (state : ConquisterState) (index : ℕ) (now : ℤ) :
    List RaidEvent × ConquisterState :=
  match state.raids[index]? with
  | none => ([], state)
  | some raid =>
    if raid.over now then ([(homecoming state raid now).1], (homecoming state raid now).2)
    else ([], state)

/-- The ride at an index is settled: at its target if it is there, then at home if it is back, as it
stands by then. -/
def settleRide [Clock] (state : ConquisterState) (index : ℕ) (now : ℤ) (rules : RaidRules)
    (draws : RaidDraws) : Except Failure (List RaidEvent × ConquisterState) :=
  match settleArrival state index now rules draws with
  | .error failure => .error failure
  | .ok (arrived, there) =>
    .ok (arrived ++ (settleHomecoming there index now).1, (settleHomecoming there index now).2)

def settleRides [Clock] (now : ℤ) (rules : RaidRules) (draws : ℕ → RaidDraws) :
    ℕ → ℕ → ConquisterState → Except Failure (List RaidEvent × ConquisterState)
  | 0, _, state => .ok ([], state)
  | count + 1, index, state =>
    match settleRide state index now rules (draws index) with
    | .error failure => .error failure
    | .ok (first, settled) =>
      match settleRides now rules draws count (index + 1) settled with
      | .error failure => .error failure
      | .ok (others, after) => .ok (first ++ others, after)

/-- What comes before the rides are walked. -/
def beforeRides (state : ConquisterState) (now : ℤ) (rules : RaidRules) (draws : DueDraws) :
    List RaidEvent × ConquisterState :=
  let grown := grow (layEggs (wash state now) now rules) now rules draws.courting
  let born := births grown.2 now rules draws.birth
  (grown.1 ++ born.1, born.2)

def raidDue [Clock] (state : ConquisterState) (now : ℤ) (rules : RaidRules) (draws : DueDraws) :
    Except Failure (List RaidEvent × ConquisterState) :=
  let before := beforeRides state now rules draws
  match settleRides now rules draws.ride before.2.raids.length 0 before.2 with
  | .error failure => .error failure
  | .ok (events, after) =>
    .ok (before.1 ++ events,
      { after with raids := after.raids.filter fun raid => ¬ raid.over now })

end

end NorelecBot
