import NorelecBot.Lib.Ledger
import NorelecBot.Operations
import Mathlib.Algebra.BigOperators.Group.Multiset.Basic
import Mathlib.Algebra.Group.Pi.Basic
import Mathlib.Data.Multiset.OrderedMonoid

/-! # What is counted

The palle of the game, its emoji kind by kind, and its children; and the receipt
a step is entered under: what it brought into the game and what it took out.
-/

namespace NorelecBot
open Lib

/-- One emoji of its kind, or nothing for an empty slot. -/
def unit (emoji : Str) : Str → ℤ :=
  if withoutVariation emoji = [] then 0 else Pi.single (withoutVariation emoji) 1

def shelf (slots : List Str) : Str → ℤ := shelfSum unit slots

@[simp] theorem unit_nil : unit [] = 0 := rfl

@[simp] theorem shelf_nil : shelf [] = 0 := rfl

theorem unit_congr {one other : Str} (h : sameEmoji one other = true) : unit one = unit other := by
  have hplain : withoutVariation one = withoutVariation other := by simpa [sameEmoji] using h
  rw [unit, unit, hplain]

theorem shelf_trimSlots (slots : List Str) : shelf (trimSlots slots) = shelf slots :=
  shelfSum_trimSlots unit_nil slots

theorem shelf_set {slots : List Str} {slot : ℕ} (h : slot < slots.length) (emoji : Str) :
    shelf (slots.set slot emoji) = shelf slots + unit emoji - unit (slotAt slots slot) := by
  rw [eq_sub_iff_add_eq]
  exact shelfSum_set unit h emoji

theorem shelf_fillSlot (slots : List Str) (slot : ℕ) (emoji : Str) :
    shelf (fillSlot slots slot emoji) = shelf slots + unit emoji - unit (slotAt slots slot) := by
  rw [eq_sub_iff_add_eq]
  exact shelfSum_fillSlot unit_nil slots slot emoji

theorem shelf_set_sub {slots : List Str} {slot : ℕ} (h : slot < slots.length) (emoji : Str) :
    shelf (slots.set slot emoji) - shelf slots = unit emoji - unit (slotAt slots slot) := by
  rw [shelf_set h, sub_right_comm, add_sub_cancel_left]

theorem shelf_fillSlot_sub (slots : List Str) (slot : ℕ) (emoji : Str) :
    shelf (fillSlot slots slot emoji) - shelf slots = unit emoji - unit (slotAt slots slot) := by
  rw [shelf_fillSlot, sub_right_comm, add_sub_cancel_left]

def palleRiding (raids : List Raid) : ℤ := (raids.map fun raid => raid.loot + raid.gift).sum

def emojiRiding (raids : List Raid) : Str → ℤ := (raids.map fun raid => unit raid.giftEmoji).sum

def totalPalle (state : ConquisterState) : ℤ := state.scores.total id + palleRiding state.raids

def Child.self (child : Child) : Str × Bool × ℤ := (child.owner, child.male, child.born)

def Child.record (child : Child) : Str × ℤ × Bool × ℤ := (child.owner, child.slot, child.male, child.born)

def kids (state : ConquisterState) : Multiset (Str × Bool × ℤ) := (state.children.map Child.self : List _)

section
variable [SlotCodec]

def keptEmoji (place : Authors) : Str → ℤ := place.total fun stored => shelf (SlotCodec.slots stored)

/-- How many emoji of each kind there are: in the houses, on the players and on the rides. -/
def census (state : ConquisterState) : Str → ℤ :=
  keptEmoji state.furniture + keptEmoji state.equipped + emojiRiding state.raids

end

/-- What a step brought in, or took out where it is negative; what was written by somebody, who set
off for whom, what a hold was paid, the children that are no more, and how often somebody came into the
place or had the hold counted. -/
@[ext] structure Receipt where
  palle : ℤ := 0
  emoji : Str → ℤ := 0
  typed : Multiset Str := 0
  setOff : Multiset (Str × Str) := 0
  paid : Multiset ℤ := 0
  left : Multiset (Str × Bool × ℤ) := 0
  tended : ℕ := 0

namespace Receipt

instance : Zero Receipt := ⟨{}⟩

instance : Add Receipt := ⟨fun f g =>
  ⟨f.palle + g.palle, f.emoji + g.emoji, f.typed + g.typed, f.setOff + g.setOff, f.paid + g.paid,
    f.left + g.left, f.tended + g.tended⟩⟩

@[simp] theorem mk_zero : (⟨0, 0, 0, 0, 0, 0, 0⟩ : Receipt) = 0 := rfl
@[simp] theorem palle_zero : (0 : Receipt).palle = 0 := rfl
@[simp] theorem emoji_zero : (0 : Receipt).emoji = 0 := rfl
@[simp] theorem typed_zero : (0 : Receipt).typed = 0 := rfl
@[simp] theorem setOff_zero : (0 : Receipt).setOff = 0 := rfl
@[simp] theorem paid_zero : (0 : Receipt).paid = 0 := rfl
@[simp] theorem left_zero : (0 : Receipt).left = 0 := rfl
@[simp] theorem tended_zero : (0 : Receipt).tended = 0 := rfl
@[simp] theorem palle_add (f g : Receipt) : (f + g).palle = f.palle + g.palle := rfl
@[simp] theorem emoji_add (f g : Receipt) : (f + g).emoji = f.emoji + g.emoji := rfl
@[simp] theorem typed_add (f g : Receipt) : (f + g).typed = f.typed + g.typed := rfl
@[simp] theorem setOff_add (f g : Receipt) : (f + g).setOff = f.setOff + g.setOff := rfl
@[simp] theorem paid_add (f g : Receipt) : (f + g).paid = f.paid + g.paid := rfl
@[simp] theorem left_add (f g : Receipt) : (f + g).left = f.left + g.left := rfl
@[simp] theorem tended_add (f g : Receipt) : (f + g).tended = f.tended + g.tended := rfl

instance : AddCommMonoid Receipt where
  add_assoc f g h := by ext <;> simp [add_assoc]
  zero_add f := by ext <;> simp
  add_zero f := by ext <;> simp
  add_comm f g := by ext <;> simp [add_comm]
  nsmul := nsmulRec

def pay (earned : ℤ) : Receipt := { palle := earned, paid := {earned} }

@[simp] theorem palle_pay (earned : ℤ) : (pay earned).palle = earned := rfl
@[simp] theorem emoji_pay (earned : ℤ) : (pay earned).emoji = 0 := rfl
@[simp] theorem typed_pay (earned : ℤ) : (pay earned).typed = 0 := rfl
@[simp] theorem setOff_pay (earned : ℤ) : (pay earned).setOff = 0 := rfl
@[simp] theorem paid_pay (earned : ℤ) : (pay earned).paid = {earned} := rfl
@[simp] theorem left_pay (earned : ℤ) : (pay earned).left = 0 := rfl
@[simp] theorem tended_pay (earned : ℤ) : (pay earned).tended = 0 := rfl

def palleHom : Receipt →+ ℤ := ⟨⟨palle, rfl⟩, fun _ _ => rfl⟩
def emojiHom : Receipt →+ (Str → ℤ) := ⟨⟨emoji, rfl⟩, fun _ _ => rfl⟩
def leftHom : Receipt →+ Multiset (Str × Bool × ℤ) := ⟨⟨left, rfl⟩, fun _ _ => rfl⟩

/-- Whether every emoji somebody wrote is of a kind. -/
def TypedIn (P : Str → Prop) (f : Receipt) : Prop := ∀ emoji ∈ f.typed, emoji ≠ [] → P emoji

/-- Whether no hold was paid a negative amount. -/
def PaysUp (f : Receipt) : Prop := ∀ amount ∈ f.paid, 0 ≤ amount

theorem typedIn_add {P : Str → Prop} (f g : Receipt) (h : (f + g).TypedIn P) :
    f.TypedIn P ∧ g.TypedIn P :=
  ⟨fun e he => h e (Multiset.mem_add.mpr (.inl he)), fun e he => h e (Multiset.mem_add.mpr (.inr he))⟩

theorem paysUp_add (f g : Receipt) (h : (f + g).PaysUp) : f.PaysUp ∧ g.PaysUp :=
  ⟨fun a ha => h a (Multiset.mem_add.mpr (.inl ha)), fun a ha => h a (Multiset.mem_add.mpr (.inr ha))⟩

end Receipt

end NorelecBot
