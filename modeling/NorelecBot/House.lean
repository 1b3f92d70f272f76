import NorelecBot.Hold

/-! # What a player does at home

Buying, moving, taking along and putting back an emoji, each after the player
has left the place if he held it, and the sorting of the saves from before there
were two places.
-/

namespace NorelecBot
open Lib

def atHome (state : ConquisterState) (player : Str) : Prop := whereabouts state player = .home
def onTheRoad (state : ConquisterState) (player : Str) : Prop := whereabouts state player = .road

instance (state : ConquisterState) (player : Str) : Decidable (atHome state player) :=
  inferInstanceAs (Decidable (_ = _))
instance (state : ConquisterState) (player : Str) : Decidable (onTheRoad state player) :=
  inferInstanceAs (Decidable (_ = _))

inductive BurnStatus where
  | burned
  | invalidAmount
  | insufficientScore
  | travelling
  deriving DecidableEq, Repr

structure BurnResult where
  status : BurnStatus := .burned
  amount : ℤ := 0
  score : ℤ := 0
  deriving DecidableEq, Repr

def palleBurn (state : ConquisterState) (player : Str) (amount : ℤ) : BurnResult × ConquisterState :=
  let score := counter state.scores player
  if onTheRoad state player then ({ status := .travelling, score := score }, state)
  else if amount ≤ 0 then ({ status := .invalidAmount, score := score }, state)
  else if amount > score then ({ status := .insufficientScore, score := score }, state)
  else ({ status := .burned, amount := amount, score := score - amount },
    { state with scores := state.scores.set player (score - amount) })

/-- The price grown once for every copy, stopping at the largest number. -/
def inflate (factor : ℤ) : ℕ → ℤ → ℤ
  | 0, price => price
  | copies + 1, price =>
    if price > int64Max.tdiv factor then int64Max else inflate factor copies ((price * factor).tdiv 100)

def inflated (cost : ℤ) (copies : ℕ) (inflation : ℤ) : ℤ :=
  if cost ≤ 0 then 0 else inflate (100 + max inflation 0) copies cost

inductive FurnitureStatus where
  | bought
  | full
  | invalidPosition
  | alreadyThere
  | insufficientScore
  | notHome
  | childThere
  deriving DecidableEq, Repr

structure FurnitureResult where
  status : FurnitureStatus := .bought
  availableScore : ℤ := 0
  shown : Str := []
  house : Str := []
  withHim : Bool := false
  position : ℕ := 0
  replaced : Str := []
  copies : ℕ := 0
  charged : ℤ := 0
  departure : Departure := {}
  deriving DecidableEq, Repr

section
variable [SlotCodec]

def copiesIn (slots : List Str) (wanted : Str) : ℕ :=
  slots.countP fun slot => slot ≠ [] && withoutVariation slot = wanted

def copiesKept (place : Authors) (wanted : Str) : ℕ :=
  (place.entries.map fun hung => copiesIn (SlotCodec.slots hung.2) wanted).sum

/-- One on its way to somebody is still in the game. -/
def copiesRiding (raids : List Raid) (wanted : Str) : ℕ :=
  raids.countP fun raid => raid.giftEmoji ≠ [] && withoutVariation raid.giftEmoji = wanted

def copiesOf (state : ConquisterState) (wanted : Str) : ℕ :=
  copiesKept state.furniture wanted + copiesKept state.equipped wanted + copiesRiding state.raids wanted

/-- Where a purchase goes: on him or not, and the slot; or why nowhere. -/
def chosenSlot (state : ConquisterState) (username emoji : Str) (position : ℤ) (limit : ℕ) :
    Except FurnitureStatus (Bool × ℕ) :=
  if position = 0 then
    match (if worksOnHim emoji then freeSlot (gearOf state username) carriedLimit else none),
        freeSlot (slotsOf state username) limit with
    | some slot, _ => .ok (true, slot)
    | none, some slot => .ok (false, slot)
    | none, none => .error .full
  else if position < 0 ∨ position > limit then .error .invalidPosition
  else .ok (false, (position - 1).toNat)

/-- He pays, and the emoji goes over what was in its slot. -/
def hangBought (state : ConquisterState) (username emoji : Str) (withHim : Bool) (slot : ℕ)
    (charged : ℤ) : ConquisterState :=
  let paid := { state with
    scores := state.scores.set username (counter state.scores username - charged) }
  if withHim then hangGear paid username (fillSlot (gearOf state username) slot emoji)
  else hang paid username (fillSlot (slotsOf state username) slot emoji)

def buyAtHome (state : ConquisterState) (departure : Departure) (username emoji : Str)
    (position cost : ℤ) (limit : ℕ) (inflation : ℤ) : FurnitureResult × ConquisterState :=
  let outcome : FurnitureResult :=
    { departure := departure, availableScore := counter state.scores username
      shown := shownGear state username, house := SlotCodec.stored (slotsOf state username) }
  match chosenSlot state username emoji position limit with
  | .error status => ({ outcome with status := status }, state)
  | .ok (withHim, slot) =>
    let placed := { outcome with withHim := withHim, position := if withHim then 0 else slot + 1 }
    let there := slotAt (slotsOf state username) slot
    if ¬ withHim ∧ isChild state username slot then
      ({ placed with status := .childThere, replaced := there }, state)
    else if ¬ withHim ∧ slot < (slotsOf state username).length ∧
        withoutVariation there = withoutVariation emoji then
      ({ placed with status := .alreadyThere, replaced := there }, state)
    else
      let copies := copiesOf state (withoutVariation emoji)
      let charged := inflated cost copies inflation
      let priced := { placed with copies := copies, charged := charged }
      if counter state.scores username < charged then
        ({ priced with status := .insufficientScore }, state)
      else
        let after := hangBought state username emoji withHim slot charged
        ({ priced with
            status := .bought
            replaced := slotAt (if withHim then gearOf state username else slotsOf state username) slot
            availableScore := counter state.scores username - charged
            shown := shownGear after username
            house := storedIn after.furniture username }, after)

def furnitureBuy (state : ConquisterState) (username emoji : Str) (position cost : ℤ) (limit : ℕ)
    (now inflation : ℤ) : Except Failure (FurnitureResult × ConquisterState) :=
  match goHome state username now with
  | .error failure => .error failure
  | .ok (departure, away) =>
    if ¬ atHome away username then
      .ok ({ status := .notHome, departure := departure,
             availableScore := counter away.scores username }, away)
    else .ok (buyAtHome away departure username emoji position cost limit inflation)

inductive FurnitureMoveStatus where
  | moved
  | swapped
  | emptySlot
  | invalidPosition
  | samePosition
  | notHome
  deriving DecidableEq, Repr

structure FurnitureMoveResult where
  status : FurnitureMoveStatus := .moved
  shown : Str := []
  moved : Str := []
  swapped : Str := []
  departure : Departure := {}
  deriving DecidableEq, Repr

def Child.swapped (child : Child) (username : Str) (source target : ℕ) : Child :=
  if child.owner ≠ username then child
  else if child.slot = source then { child with slot := target }
  else if child.slot = target then { child with slot := source }
  else child

def swapSlots (slots : List Str) (source target : ℕ) : List Str :=
  ((padSlots (target + 1) slots).set source (slotAt slots target)).set target (slotAt slots source)

def moveAtHome (state : ConquisterState) (shown : Str) (departure : Departure) (username : Str)
    (source target : ℕ) : FurnitureMoveResult × ConquisterState :=
  let slots := slotsOf state username
  if slotAt slots source = [] then
    ({ status := .emptySlot, shown := shown, departure := departure }, state)
  else
    ({ status := if slotAt slots target = [] then .moved else .swapped
       shown := SlotCodec.stored (swapSlots slots source target)
       moved := slotAt slots source
       swapped := slotAt slots target
       departure := departure },
     hang { state with children := state.children.map (·.swapped username source target) }
       username (swapSlots slots source target))

def furnitureMove (state : ConquisterState) (username : Str) (source target : ℤ) (limit : ℕ)
    (now : ℤ) : Except Failure (FurnitureMoveResult × ConquisterState) :=
  let shown := SlotCodec.stored (slotsOf state username)
  if source < 1 ∨ source > limit ∨ target < 1 ∨ target > limit then
    .ok ({ status := .invalidPosition, shown := shown }, state)
  else if source = target then .ok ({ status := .samePosition, shown := shown }, state)
  else match goHome state username now with
    | .error failure => .error failure
    | .ok (departure, away) =>
      if ¬ atHome away username then
        .ok ({ status := .notHome, shown := shown, departure := departure }, away)
      else .ok (moveAtHome away shown departure username (source - 1).toNat (target - 1).toNat)

inductive GearStatus where
  | taken
  | swapped
  | stored
  | notHome
  | notOwned
  | alreadyOn
  | child
  | full
  | swapMissing
  | notOn
  | houseFull
  deriving DecidableEq, Repr

structure GearResult where
  status : GearStatus := .taken
  shown : Str := []
  house : Str := []
  swapped : Str := []
  departure : Departure := {}
  deriving DecidableEq, Repr

/-- What made room takes the slot in the house of what it made room for. -/
def exchange (state : ConquisterState) (player : Str) (source target : ℕ) (swapped : Str) :
    ConquisterState :=
  let emoji := slotAt (slotsOf state player) source
  hangGear (hang state player ((slotsOf state player).set source swapped)) player
    (fillSlot (gearOf state player) target emoji)

def takeAtHome (state : ConquisterState) (departure : Departure) (player emoji swap : Str) :
    GearResult × ConquisterState :=
  match slotHolding state player emoji with
  | none =>
    ({ departure := departure
       status := if namesChild state player emoji then .child
         else if (gearSlotHolding state player emoji).isSome then .alreadyOn else .notOwned }, state)
  | some source =>
    if swap ≠ [] then
      match gearSlotHolding state player swap with
      | none => ({ departure := departure, status := .swapMissing }, state)
      | some target =>
        let out := slotAt (gearOf state player) target
        let after := exchange state player source target out
        ({ departure := departure, swapped := out
           status := if out = [] then .taken else .swapped
           shown := shownGear after player, house := storedIn after.furniture player }, after)
    else
      match freeSlot (gearOf state player) carriedLimit with
      | none => ({ departure := departure, status := .full, shown := shownGear state player }, state)
      | some target =>
        let after := exchange state player source target []
        ({ departure := departure, status := .taken
           shown := shownGear after player, house := storedIn after.furniture player }, after)

def gearTake (state : ConquisterState) (player emoji swap : Str) (now : ℤ) :
    Except Failure (GearResult × ConquisterState) :=
  match goHome state player now with
  | .error failure => .error failure
  | .ok (departure, away) =>
    if ¬ atHome away player then .ok ({ status := .notHome, departure := departure }, away)
    else .ok (takeAtHome away departure player emoji swap)

def storeAtHome (state : ConquisterState) (departure : Departure) (player emoji : Str) (limit : ℕ) :
    GearResult × ConquisterState :=
  match gearSlotHolding state player emoji with
  | none => ({ departure := departure, status := .notOn }, state)
  | some source =>
    match putInHouse state player (slotAt (gearOf state player) source) limit with
    | none => ({ departure := departure, status := .houseFull }, state)
    | some kept =>
      let after := hangGear kept player ((gearOf state player).set source [])
      ({ departure := departure, status := .stored
         shown := shownGear after player, house := storedIn after.furniture player }, after)

def gearStore (state : ConquisterState) (player emoji : Str) (limit : ℕ) (now : ℤ) :
    Except Failure (GearResult × ConquisterState) :=
  match goHome state player now with
  | .error failure => .error failure
  | .ok (departure, away) =>
    if ¬ atHome away player then .ok ({ status := .notHome, departure := departure }, away)
    else .ok (storeAtHome away departure player emoji limit)

/-- What works on him goes on him, as much as fits, from that slot of the house on: the house, what is
on him, and which slot went where. -/
def sortOutFrom (state : ConquisterState) (player : Str) :
    List ℕ → List Str → List Str → List (ℕ × ℕ) → List Str × List Str × List (ℕ × ℕ)
  | [], house, gear, moved => (house, gear, moved)
  | slot :: slots, house, gear, moved =>
    if slotAt house slot = [] ∨ ¬ worksOnHim (slotAt house slot) ∨ isChild state player slot then
      sortOutFrom state player slots house gear moved
    else match freeSlot gear carriedLimit with
      | none => (house, gear, moved)
      | some target =>
        sortOutFrom state player slots (house.set slot []) (fillSlot gear target (slotAt house slot))
          (moved ++ [(slot, target)])

/-- The holder's 🦞 keep what they became, in the slots they moved to. -/
def movedLobsters (lobsters : SortedMap Str) (moved : List (ℕ × ℕ)) : SortedMap Str :=
  lobsters.entries.foldl (fun kept entry =>
    match assoc entry.1 moved with
    | some target => kept.set target entry.2
    | none => kept) .empty

def sortOut (state : ConquisterState) (player stored : Str) : ConquisterState :=
  match sortOutFrom state player (List.range (SlotCodec.slots stored).length) (SlotCodec.slots stored)
      (gearOf state player) [] with
  | (house, gear, moved) =>
    if moved = [] then state
    else
      let hung := hangGear (hang state player house) player gear
      match hung.current with
      | none => hung
      | some hold =>
        if hold.username ≠ player then hung
        else { hung with current := some { hold with lobsters := movedLobsters hold.lobsters moved } }

def equipmentSortOut (state : ConquisterState) : ConquisterState :=
  if state.split then state
  else { state.furniture.entries.foldl (fun sorted house => sortOut sorted house.1 house.2) state with
    split := true }

end

end NorelecBot
