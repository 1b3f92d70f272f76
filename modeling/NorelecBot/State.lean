import NorelecBot.Lib.SortedMap
import NorelecBot.Powers
import Mathlib.Algebra.Order.Ring.Int

/-! # What the bot keeps on file

The game state as `conquister.json` holds it, with its maps in file order, and
the two ways a transaction can end without a result. Numbers are exact integers.
-/

namespace NorelecBot
open Lib

abbrev Counters := OrderedMap Str ℤ
abbrev Authors := OrderedMap Str Str
abbrev Quotes := List Str

/-- Why a transaction leaves the files as they were. -/
inductive Failure where
  /-- A `StorageError` thrown for an overflow. -/
  | overflow
  /-- `std::out_of_range`, thrown by `at`. -/
  | outOfRange
  /-- A loop that goes on for as long as the numbers drawn are taken. -/
  | stuck
  deriving DecidableEq, Repr

structure Holder where
  userId : ℤ := 0
  username : Str := []
  since : ℤ := 0
  /-- What this hold is worth in percent, 0 for nothing. -/
  lightningPercent : ℤ := 0
  /-- How many ⚡ that percent stands for. -/
  bolts : ℤ := 0
  /-- What the hold earned up to the instant a ⚡ was lost, and that instant. -/
  banked : ℤ := 0
  countedFrom : ℤ := 0
  /-- What the 🦞 on him came in as, by slot from 0. -/
  lobsters : SortedMap Str := .empty
  deriving DecidableEq

/-- A player away from home, riding to another one or back. -/
structure Raid where
  raider : Str
  target : Str
  arrive : ℤ
  back : ℤ
  arrived : Bool := false
  /-- What he is carrying home, set when he arrives. -/
  loot : ℤ := 0
  /-- Palle and emoji taken along for the target. -/
  gift : ℤ := 0
  giftEmoji : Str := []
  intact : Bool := false
  deriving DecidableEq

structure Pregnancy where
  mother : Str
  father : Str
  due : ℤ
  deriving DecidableEq

structure Child where
  owner : Str
  slot : ℤ
  male : Bool
  born : ℤ
  courted : Bool := false
  deriving DecidableEq

/-- A raid that reached a house lately. -/
structure Knock where
  raider : Str
  target : Str
  stamp : ℤ
  deriving DecidableEq

structure ConquisterState where
  current : Option Holder := none
  scores : Counters := .empty
  quotesAdded : Counters := .empty
  balloons : Counters := .empty
  cooldowns : Counters := .empty
  ids : Counters := .empty
  telegramIds : Counters := .empty
  ircNames : Counters := .empty
  /-- Verified platform account to internal player key. -/
  accounts : Authors := .empty
  displayNames : Authors := .empty
  telegramNames : Authors := .empty
  ircNicks : Authors := .empty
  linkRequests : Authors := .empty
  raids : List Raid := []
  quoteAuthors : Authors := .empty
  /-- The emoji each player keeps in his house. -/
  furniture : Authors := .empty
  debugging : Counters := .empty
  smeared : Counters := .empty
  welcomed : Counters := .empty
  frozen : Counters := .empty
  pregnancies : List Pregnancy := []
  children : List Child := []
  eggsAt : ℤ := 0
  knocks : List Knock := []
  /-- The emoji each player has with him. -/
  equipped : Authors := .empty
  split : Bool := false
  pugliesi : Counters := .empty
  joined : Counters := .empty
  guided : Counters := .empty
  entered : Counters := .empty
  invitedBy : Authors := .empty
  inviteDays : Counters := .empty
  inviteLastDay : Counters := .empty
  invitePaid : Counters := .empty
  deriving DecidableEq

instance : Inhabited ConquisterState := ⟨{}⟩

def int64Max : ℤ := 2 ^ 63 - 1

/-- What `random_index` makes of a number drawn. -/
def randomIndex (draw count : ℕ) : ℕ := draw % count

/-- Whether a number drawn from 0 to 99 falls under a chance in percent. -/
def wins (draw : ℕ) (chance : ℤ) : Bool := (randomIndex draw 100 : ℤ) < chance

/-- A share for each copy, of everything at most. -/
def upToAll (copies percent : ℤ) : ℤ := min 100 (copies * max percent 0)

theorem randomIndex_lt (draw : ℕ) {count : ℕ} (h : 0 < count) : randomIndex draw count < count :=
  Nat.mod_lt _ h

theorem upToAll_nonneg {copies : ℤ} (h : 0 ≤ copies) (percent : ℤ) : 0 ≤ upToAll copies percent :=
  le_min (by norm_num) (mul_nonneg h (le_max_right _ _))

theorem upToAll_le (copies percent : ℤ) : upToAll copies percent ≤ 100 := min_le_left _ _

def counter (counters : Counters) (username : Str) : ℤ := (counters.find username).getD 0

def findIgnoreCase (counters : Counters) (username : Str) : Option (Str × ℤ) :=
  counters.entries.find? fun entry => Text.equalsIgnoreCase entry.1 username

theorem counter_set (counters : Counters) (key : Str) (value : ℤ) (player : Str) :
    counter (counters.set key value) player = if player = key then value else counter counters player := by
  rw [counter, OrderedMap.find_set]
  split <;> rfl

@[simp] theorem counter_set_self (counters : Counters) (key : Str) (value : ℤ) :
    counter (counters.set key value) key = value := by
  rw [counter_set, if_pos rfl]

theorem counter_erase (counters : Counters) (key player : Str) :
    counter (counters.erase key) player = if player = key then 0 else counter counters player := by
  rw [counter, OrderedMap.find_erase]
  split <;> rfl

end NorelecBot
