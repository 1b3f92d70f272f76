import NorelecBot.Lib.Slots
import NorelecBot.State

/-! # The emoji in a house and on a player

Both places are kept as one string, its slots one after the other with `[]` for
an empty one, and are read back by telling the emoji apart. Everything that
moves emoji goes through the two functions that read and write these strings,
which are left open here: the ones of the source are the instance.
-/

namespace NorelecBot
open Lib

/-- How the slots of a place are written down and read back. -/
class SlotCodec where
  slots : Str → List Str
  stored : List Str → Str

def emptySlot : Str := utf8 "[]"

def upToEmptySlot : Str → Str
  | [] => []
  | character :: stored =>
    if emptySlot.isPrefixOf (character :: stored) then [] else character :: upToEmptySlot stored

/-- Whatever an older version saved stays where it was, as one slot. -/
def pieceSlots (piece : Str) : List Str := (Text.emojiSplit piece).getD [piece]

/-- The fuel is the length of the string, of which every round takes a byte at least. -/
def readSlots : ℕ → Str → List Str
  | 0, _ => []
  | fuel + 1, stored =>
    if stored = [] then []
    else if emptySlot.isPrefixOf stored then [] :: readSlots fuel (stored.drop emptySlot.length)
    else pieceSlots (upToEmptySlot stored) ++
      readSlots fuel (stored.drop (upToEmptySlot stored).length)

def furnitureSlots (stored : Str) : List Str := readSlots stored.length stored

/-- `[]` for an empty slot, none after the last emoji. -/
def furnitureStored (slots : List Str) : Str :=
  (trimSlots slots).flatMap fun slot => if slot = [] then emptySlot else slot

instance : SlotCodec := ⟨furnitureSlots, furnitureStored⟩

example : furnitureSlots (utf8 "🎈[]🍕[][]🐟") = [utf8 "🎈", [], utf8 "🍕", [], [], utf8 "🐟"] := by
  decide
example : furnitureStored [utf8 "🎈", [], utf8 "🍕", [], []] = utf8 "🎈[]🍕" := by decide

section
variable [SlotCodec]

def storedIn (place : Authors) (player : Str) : Str := (place.find player).getD []

def slotsOf (state : ConquisterState) (player : Str) : List Str :=
  SlotCodec.slots (storedIn state.furniture player)

def gearOf (state : ConquisterState) (player : Str) : List Str :=
  SlotCodec.slots (storedIn state.equipped player)

def countPower (slots : List Str) (power : Power) : ℤ :=
  (slots.countP fun slot => slot ≠ [] && isPower slot power : ℕ)

/-- A 🦞 burnt from the place is gone, and so is what it had become. -/
def withLobsters (lobsters : List (ℕ × Str)) (slots : List Str) : List Str :=
  lobsters.foldl (fun shown entry =>
    if entry.1 < shown.length ∧ isLobster (slotAt shown entry.1) then shown.set entry.1 entry.2
    else shown) slots

/-- What a player has on him as the group sees it: the holder's 🦞 show what they came in as. -/
def shownGear (state : ConquisterState) (player : Str) : Str :=
  match state.current with
  | none => storedIn state.equipped player
  | some hold =>
    if hold.username ≠ player ∨ hold.lobsters.entries = [] then storedIn state.equipped player
    else SlotCodec.stored (withLobsters hold.lobsters.entries (gearOf state player))

def carriedCopies (state : ConquisterState) (player : Str) (power : Power) : ℤ :=
  countPower (SlotCodec.slots (shownGear state player)) power

def houseCopies (state : ConquisterState) (player : Str) (power : Power) : ℤ :=
  countPower (slotsOf state player) power

def worn (state : ConquisterState) (player : Str) : Str := shownGear state player

/-- For every 🦞 on the claimer, the emoji the kicked holder has on him in that same slot. -/
def lobstersCopying (state : ConquisterState) (claimer kicked : Str) : SortedMap Str :=
  (List.range (min (gearOf state claimer).length (gearOf state kicked).length)).foldl
    (fun copied slot =>
      if isLobster (slotAt (gearOf state claimer) slot) ∧ slotAt (gearOf state kicked) slot ≠ [] ∧
          ¬ isLobster (slotAt (gearOf state kicked) slot)
      then copied.set slot (slotAt (gearOf state kicked) slot) else copied) .empty

/-- A player left with nothing there loses his entry. -/
def hangIn (place : Authors) (player : Str) (slots : List Str) : Authors :=
  if SlotCodec.stored slots = [] then place.erase player
  else place.set player (SlotCodec.stored slots)

def hang (state : ConquisterState) (player : Str) (slots : List Str) : ConquisterState :=
  { state with furniture := hangIn state.furniture player slots }

def hangGear (state : ConquisterState) (player : Str) (slots : List Str) : ConquisterState :=
  { state with equipped := hangIn state.equipped player slots }

theorem storedIn_hangIn (place : Authors) (player : Str) (slots : List Str) (other : Str) :
    storedIn (hangIn place player slots) other =
      if other = player then SlotCodec.stored slots else storedIn place other := by
  rw [storedIn, storedIn, hangIn]
  split
  · rename_i hempty
    rw [OrderedMap.find_erase]
    split
    · exact hempty.symm
    · rfl
  · rw [OrderedMap.find_set]
    split <;> rfl

section
variable (state : ConquisterState) (player : Str) (slots : List Str)

@[simp] theorem hang_scores : (hang state player slots).scores = state.scores := rfl
@[simp] theorem hang_raids : (hang state player slots).raids = state.raids := rfl
@[simp] theorem hang_current : (hang state player slots).current = state.current := rfl
@[simp] theorem hang_children : (hang state player slots).children = state.children := rfl
@[simp] theorem hang_equipped : (hang state player slots).equipped = state.equipped := rfl
@[simp] theorem hangGear_scores : (hangGear state player slots).scores = state.scores := rfl
@[simp] theorem hangGear_raids : (hangGear state player slots).raids = state.raids := rfl
@[simp] theorem hangGear_current : (hangGear state player slots).current = state.current := rfl
@[simp] theorem hangGear_children : (hangGear state player slots).children = state.children := rfl
@[simp] theorem hangGear_furniture : (hangGear state player slots).furniture = state.furniture := rfl

@[simp] theorem gearOf_hang (other : Str) : gearOf (hang state player slots) other = gearOf state other :=
  rfl

@[simp] theorem slotsOf_hangGear (other : Str) :
    slotsOf (hangGear state player slots) other = slotsOf state other := rfl

theorem slotsOf_hang (other : Str) : slotsOf (hang state player slots) other =
    if other = player then SlotCodec.slots (SlotCodec.stored slots) else slotsOf state other := by
  rw [slotsOf, hang, storedIn_hangIn]
  split <;> rfl

theorem gearOf_hangGear (other : Str) : gearOf (hangGear state player slots) other =
    if other = player then SlotCodec.slots (SlotCodec.stored slots) else gearOf state other := by
  rw [gearOf, hangGear, storedIn_hangIn]
  split <;> rfl

end

def freeSlot (slots : List Str) (limit : ℕ) : Option ℕ :=
  if firstEmpty slots < limit then some (firstEmpty slots) else none

/-- Puts an emoji in the first empty slot; nothing when there is none. -/
def putIn (slots : List Str) (emoji : Str) (limit : ℕ) : Option (List Str) :=
  (freeSlot slots limit).map fun slot => fillSlot slots slot emoji

/-- How many emoji a player can have on him. -/
def carriedLimit : ℕ := 5

def putOn (state : ConquisterState) (player emoji : Str) : Option ConquisterState :=
  (putIn (gearOf state player) emoji carriedLimit).map fun slots => hangGear state player slots

def putInHouse (state : ConquisterState) (player emoji : Str) (limit : ℕ) : Option ConquisterState :=
  (putIn (slotsOf state player) emoji limit).map fun slots => hang state player slots

inductive Whereabouts where
  | home
  | conquister
  | road
  deriving DecidableEq, Repr

def whereabouts (state : ConquisterState) (player : Str) : Whereabouts :=
  if state.current.any fun hold => Text.equalsIgnoreCase hold.username player then .conquister
  else if state.raids.any fun raid => raid.raider = player then .road
  else .home

/-- An emoji that reaches a player goes where it works: on him, if he is home to take it and has
room, or in the house. Whether it went on him, or nothing when there was no room anywhere. -/
def receive (state : ConquisterState) (player emoji : Str) (limit : ℕ) :
    Option (Bool × ConquisterState) :=
  match (if worksOnHim emoji ∧ whereabouts state player = .home then putOn state player emoji
    else none) with
  | some worn => some (true, worn)
  | none => (putInHouse state player emoji limit).map fun kept => (false, kept)

def canReceive (state : ConquisterState) (player emoji : Str) (limit : ℕ) : Bool :=
  (freeSlot (slotsOf state player) limit).isSome ||
    (worksOnHim emoji && whereabouts state player = .home &&
      (freeSlot (gearOf state player) carriedLimit).isSome)

def isChild (state : ConquisterState) (player : Str) (slot : ℕ) : Bool :=
  state.children.any fun child => child.owner = player && child.slot = (slot : ℤ)

def looksLike (player : Str) (slots : List Str) (emoji : Str) (child : Child) : Bool :=
  child.owner = player && 0 ≤ child.slot && child.slot.toNat < slots.length &&
    sameEmoji (slotAt slots child.slot.toNat) emoji

def namesChild (state : ConquisterState) (player emoji : Str) : Bool :=
  state.children.any (looksLike player (slotsOf state player) emoji)

/-- The first child of his that looks like that leaves his house: its slot is free again. -/
def burnChild (state : ConquisterState) (player emoji : Str) : ConquisterState :=
  match state.children.find? (looksLike player (slotsOf state player) emoji) with
  | none => state
  | some kid =>
    hang { state with
        children := state.children.eraseP (looksLike player (slotsOf state player) emoji) }
      player ((slotsOf state player).set kid.slot.toNat [])

/-- The first slot of the house that holds an emoji he can part with. -/
def slotHolding (state : ConquisterState) (player emoji : Str) : Option ℕ :=
  (List.range (slotsOf state player).length).find? fun slot =>
    slotAt (slotsOf state player) slot ≠ [] && sameEmoji (slotAt (slotsOf state player) slot) emoji &&
      !isChild state player slot

def gearSlotHolding (state : ConquisterState) (player emoji : Str) : Option ℕ :=
  (List.range (gearOf state player).length).find? fun slot =>
    slotAt (gearOf state player) slot ≠ [] && sameEmoji (slotAt (gearOf state player) slot) emoji

/-- Takes the first copy of an emoji he has, on him before the house, leaving a hole where it was. -/
def takeEmoji (state : ConquisterState) (player emoji : Str) : Option ConquisterState :=
  match gearSlotHolding state player emoji with
  | some found => some (hangGear state player ((gearOf state player).set found []))
  | none =>
    (slotHolding state player emoji).map fun found =>
      hang state player ((slotsOf state player).set found [])

def hasBalloon (state : ConquisterState) (player : Str) : Bool :=
  0 < countPower (slotsOf state player) .balloon || 0 < countPower (gearOf state player) .balloon

/-- On him if there is room, else in the house; nowhere with no room at all. -/
def hangBalloon (state : ConquisterState) (player : Str) (limit : ℕ) : Option ConquisterState :=
  if limit = 0 then none
  else match putOn state player Power.balloon.emoji with
    | some worn => some worn
    | none => putInHouse state player Power.balloon.emoji limit

def markWelcomed (state : ConquisterState) (player : Str) : ConquisterState :=
  { state with welcomed := state.welcomed.set player 1 }

/-- Hands a player the 🎈 everybody starts with, once, if he has none and a free slot. -/
def welcome (state : ConquisterState) (player : Str) (limit : ℕ) : ConquisterState :=
  if counter state.welcomed player ≠ 0 then state
  else if hasBalloon (markWelcomed state player) player then markWelcomed state player
  else (hangBalloon (markWelcomed state player) player limit).getD (markWelcomed state player)

end

end NorelecBot
