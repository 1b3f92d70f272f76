import NorelecBot.Receipts
import Mathlib.Data.List.Forall2

/-! # What one step can do to the game

Every operation is a run of a few kinds of edits, each entered under its receipt.
An edit says what it leaves alone, so an invariant is checked once for each kind
and then holds along every operation.
-/

namespace NorelecBot
open Lib

/-- A ride brings nothing negative, and nothing is looted before arriving. -/
structure Raid.Orderly (raid : Raid) : Prop where
  loot : 0 ≤ raid.loot
  gift : 0 ≤ raid.gift
  before : raid.arrived = false → raid.loot = 0

/-- A ride brings loot home or a present out, never both. -/
def Raid.Single (raid : Raid) : Prop := raid.loot = 0 ∨ raid.gift = 0 ∧ raid.giftEmoji = []

structure Solvent (state : ConquisterState) : Prop where
  scores : ∀ player, 0 ≤ counter state.scores player
  rides : ∀ raid ∈ state.raids, raid.Orderly

def OneLoad (state : ConquisterState) : Prop := ∀ raid ∈ state.raids, raid.Single

structure Apart (state : ConquisterState) : Prop where
  riders : (state.raids.map Raid.raider).Nodup
  holder : ∀ hold, state.current = some hold → ∀ raid ∈ state.raids, raid.raider ≠ hold.username

/-- What a hold put aside is not negative, nor is its percent. -/
def Thrifty (state : ConquisterState) : Prop :=
  ∀ hold, state.current = some hold → 0 ≤ hold.banked

/-- What a child looks like at any of its ages. -/
def ageEmoji (male : Bool) : List Str := if male then boyLooks else girlLooks

section
variable [SlotCodec]

def AllOf (P : Str → Prop) (slots : List Str) : Prop := ∀ emoji ∈ slots, emoji ≠ [] → P emoji

structure Kept (P : Str → Prop) (state : ConquisterState) : Prop where
  house : ∀ player, AllOf P (slotsOf state player)
  gear : ∀ player, AllOf P (gearOf state player)
  rides : ∀ raid ∈ state.raids, raid.giftEmoji ≠ [] → P raid.giftEmoji

/-- A codec that gives back what it stored, as long as every emoji is of a kind, and a kind that
takes in the emoji the game itself hangs. -/
structure Lawful (P : Str → Prop) : Prop where
  back : ∀ slots, AllOf P slots → SlotCodec.slots (SlotCodec.stored slots) = trimSlots slots
  nothing : SlotCodec.slots [] = []
  balloon : SlotCodec.slots Power.balloon.emoji = [Power.balloon.emoji]
  ours : P Power.balloon.emoji
  faces : ∀ male, ∀ emoji ∈ ageEmoji male, P emoji

def GearFits (state : ConquisterState) : Prop := ∀ player, (gearOf state player).length ≤ carriedLimit

structure KidsHome (state : ConquisterState) : Prop where
  there : ∀ child ∈ state.children, 0 ≤ child.slot ∧
    slotAt (slotsOf state child.owner) child.slot.toNat ∈ ageEmoji child.male
  apart : (state.children.map fun child => (child.owner, child.slot)).Nodup

/-- Whether a house keeps the children who are in their slots there. -/
def KidsSpared (state : ConquisterState) (player : Str) (slots : List Str) : Prop :=
  ∀ child ∈ state.children, child.owner = player → 0 ≤ child.slot →
    slotAt (slotsOf state player) child.slot.toNat ∈ ageEmoji child.male →
      slotAt slots child.slot.toNat = slotAt (slotsOf state player) child.slot.toNat

/-- Whether the emoji of some slots come from the game or from what somebody wrote. -/
def ComesFrom (state : ConquisterState) (typed : Multiset Str) (slots : List Str) : Prop :=
  ∀ P : Str → Prop, Kept P state → (∀ emoji ∈ typed, emoji ≠ [] → P emoji) → AllOf P slots

def Holder.account (hold : Holder) : Holder := { hold with lobsters := .empty }

/-- Everything the invariants speak of is left alone. -/
structure SamePlay (s t : ConquisterState) : Prop where
  scores : t.scores = s.scores
  raids : t.raids = s.raids
  hold : t.current.map Holder.account = s.current.map Holder.account
  furniture : t.furniture = s.furniture
  equipped : t.equipped = s.equipped
  children : t.children.map Child.record = s.children.map Child.record

/-- A ride that is still the same one, whatever it brings by now. -/
structure Raid.Rewritten (raid raid' : Raid) : Prop where
  raider : raid'.raider = raid.raider
  target : raid'.target = raid.target
  emoji : raid'.giftEmoji = raid.giftEmoji ∨ raid'.giftEmoji = []

inductive Edit : ConquisterState → Receipt → ConquisterState → Prop
  | quiet {s t : ConquisterState} (same : SamePlay s t) : Edit s 0 t
  /-- A score is written, by whatever is not a hold that ends. -/
  | score (s : ConquisterState) (player : Str) (value : ℤ) (solvent : Solvent s → 0 ≤ value) :
      Edit s { palle := value - counter s.scores player }
        { s with scores := s.scores.set player value }
  /-- A hold is paid. -/
  | paid (s : ConquisterState) (player : Str) (amount : ℤ) :
      Edit s { palle := amount, paid := {amount} }
        { s with scores := s.scores.set player (counter s.scores player + amount) }
  | forget (s : ConquisterState) (player : Str) :
      Edit s { palle := -counter s.scores player } { s with scores := s.scores.erase player }
  | house (s : ConquisterState) (player : Str) (slots : List Str) (typed : Multiset Str)
      (kidsSpared : KidsSpared s player slots) (comesFrom : ComesFrom s typed slots) :
      Edit s { emoji := shelf slots - shelf (slotsOf s player), typed := typed } (hang s player slots)
  | gear (s : ConquisterState) (player : Str) (slots : List Str) (typed : Multiset Str)
      (fits : (gearOf s player).length ≤ carriedLimit → slots.length ≤ carriedLimit)
      (comesFrom : ComesFrom s typed slots) :
      Edit s { emoji := shelf slots - shelf (gearOf s player), typed := typed } (hangGear s player slots)
  /-- A house with no child in it is taken off the list. -/
  | unhouse (s : ConquisterState) (player : Str) (childless : ∀ child ∈ s.children, child.owner = player →
      slotAt (slotsOf s player) child.slot.toNat ∉ ageEmoji child.male) :
      Edit s { emoji := -shelf (slotsOf s player) } { s with furniture := s.furniture.erase player }
  | ungear (s : ConquisterState) (player : Str) :
      Edit s { emoji := -shelf (gearOf s player) } { s with equipped := s.equipped.erase player }
  | balloon (s : ConquisterState) (player : Str) :
      Edit s { emoji := unit Power.balloon.emoji - shelf (gearOf s player) }
        { s with equipped := balloonOn s.equipped player }
  | newborn (s : ConquisterState) (mother : Str) (place : ℕ) (male : Bool) (born : ℤ)
      (free : ∀ child ∈ s.children, child.owner = mother → child.slot = place →
        slotAt (slotsOf s mother) place ∉ ageEmoji child.male) :
      Edit s { emoji := unit (childEmoji male 0) - unit (slotAt (slotsOf s mother) place) }
        { hang s mother (fillSlot (slotsOf s mother) place (childEmoji male 0)) with
          children := s.children ++ [{ owner := mother, slot := place, male := male, born := born }] }
  | grows (s : ConquisterState) (child : Child) (looks : Str) (mem : child ∈ s.children)
      (filled : 0 ≤ child.slot ∧ slotAt (slotsOf s child.owner) child.slot.toNat ≠ [])
      (age : looks ∈ ageEmoji child.male) :
      Edit s { emoji := unit looks - unit (slotAt (slotsOf s child.owner) child.slot.toNat) }
        (hang s child.owner ((slotsOf s child.owner).set child.slot.toNat looks))
  /-- A child leaves, and its slot is free. -/
  | gone (s : ConquisterState) (before after : List Child) (child : Child)
      (split : s.children = before ++ child :: after)
      (within : child.slot.toNat < (slotsOf s child.owner).length) :
      Edit s { emoji := -unit (slotAt (slotsOf s child.owner) child.slot.toNat), left := {child.self} }
        { hang s child.owner ((slotsOf s child.owner).set child.slot.toNat []) with
          children := before ++ after }
  /-- A child with nothing in its slot is forgotten. -/
  | strays (s : ConquisterState) (before after : List Child) (child : Child)
      (split : s.children = before ++ child :: after)
      (empty : child.slot < 0 ∨ slotAt (slotsOf s child.owner) child.slot.toNat = []) :
      Edit s { left := {child.self} } { s with children := before ++ after }
  | orphaned (s : ConquisterState) (player : Str) :
      Edit s { left := ((s.children.filter fun child => child.owner = player).map Child.self : List _) }
        { s with children := s.children.filter fun child => child.owner ≠ player }
  | moves (s : ConquisterState) (player : Str) (source target : ℕ)
      (filled : slotAt (slotsOf s player) source ≠ []) :
      Edit s 0
        (hang { s with children := s.children.map (·.swapped player source target) } player
          (swapSlots (slotsOf s player) source target))
  | setOff (s : ConquisterState) (raid : Raid) (new : raid.arrived = false ∧ raid.loot = 0 ∧ 0 ≤ raid.gift)
      (free : ∀ other ∈ s.raids, other.raider ≠ raid.raider)
      (away : ∀ hold, s.current = some hold → hold.username ≠ raid.raider) :
      Edit s
        { palle := raid.gift
          emoji := unit raid.giftEmoji
          typed := {raid.giftEmoji}
          setOff := {(raid.raider, raid.target)} }
        { s with raids := s.raids ++ [raid] }
  | rides (s : ConquisterState) (raids : List Raid) (same : List.Forall₂ Raid.Rewritten s.raids raids)
      (orderly : Solvent s → ∀ raid ∈ raids, raid.Orderly)
      (single : Solvent s → OneLoad s → ∀ raid ∈ raids, raid.Single) :
      Edit s
        { palle := palleRiding raids - palleRiding s.raids
          emoji := emojiRiding raids - emojiRiding s.raids } { s with raids := raids }
  | ridesEnd (s : ConquisterState) (raids : List Raid) (fewer : raids.Sublist s.raids) :
      Edit s
        { palle := palleRiding raids - palleRiding s.raids
          emoji := emojiRiding raids - emojiRiding s.raids } { s with raids := raids }
  | enters (s : ConquisterState) (hold : Holder) (free : ∀ raid ∈ s.raids, raid.raider ≠ hold.username)
      (fresh : hold.banked = 0) : Edit s { tended := 1 } { s with current := some hold }
  | leaves (s : ConquisterState) : Edit s 0 { s with current := none }
  | banks (s : ConquisterState) (hold hold' : Holder) (held : s.current = some hold)
      (same : hold'.username = hold.username) (more : 0 ≤ hold.banked → 0 ≤ hold'.banked) :
      Edit s { tended := 1 } { s with current := some hold' }
  | startsOver (s : ConquisterState) :
      Edit s
        { palle := -totalPalle s
          emoji := (knownPlayers s).length • unit Power.balloon.emoji - census s
          left := kids s } (startOver s)

abbrev Edits : ConquisterState → Receipt → ConquisterState → Prop := Booked Edit

end

end NorelecBot
