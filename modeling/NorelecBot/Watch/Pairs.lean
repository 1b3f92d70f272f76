import NorelecBot.Watch.Signs
import Mathlib.Data.Rat.Defs
import Mathlib.Algebra.Order.Ring.Rat

/-! # The signs of one person behind two names

What one of the two gives the other, what both of them go for, and when they
play. Some of it is looked for from one side only.
-/

namespace NorelecBot.Watch
open Lib

structure Traits where
  gifts : KeyMap Str ℕ := .empty
  raids : KeyMap Str ℕ := .empty
  starts : List ℤ := []
  buckets : KeyMap ℤ Unit := .empty
  hosts : KeyMap Str Unit := .empty
  firstSeen : ℤ := 0
  acts : ℕ := 0
  deriving DecidableEq

def normalized (name : Str) : Str :=
  (name.filter fun letter => (65 ≤ letter && letter ≤ 90) || (97 ≤ letter && letter ≤ 122)).map Text.toLower

def namesAlike (left right : Str) : Bool :=
  let a := normalized left
  let b := normalized right
  if a.length > b.length then 3 ≤ b.length && b.isPrefixOf a else 3 ≤ a.length && a.isPrefixOf b

def givenTo (traits : Traits) (other : Str) : ℕ := (traits.gifts.find other).getD 0

def raidedBy (traits : Traits) (target : Str) : ℕ := (traits.raids.find target).getD 0

def raidsOf (traits : Traits) : ℕ := (traits.raids.entries.map Prod.snd).sum

/-- What presents only ever one way are worth. -/
def feedingPoints (presents : ℕ) : ℕ := if presents ≥ 5 then 40 else if presents ≥ 3 then 30 else 15

def feedingSign (left right leftName rightName : Str) (a b : Traits) : List Finding :=
  let there := givenTo a right
  let back := givenTo b left
  if there ≥ 2 ∧ back = 0 then
    [⟨feedingPoints there, utf8 "regali solo da " ++ leftName ++ utf8 " a " ++ rightName ++ utf8 " (" ++ decimal there ++
      utf8 ")"⟩]
  else if back ≥ 2 ∧ there = 0 then
    [⟨feedingPoints back, utf8 "regali solo da " ++ rightName ++ utf8 " a " ++ leftName ++ utf8 " (" ++ decimal back ++
      utf8 ")"⟩]
  else []

/-- A target few go for, gone for by both. -/
def sharesTarget (b : Traits) (raiders : KeyMap Str ℕ) (target : Str) (count : ℕ) : Bool :=
  count ≥ 3 ∧ raidedBy b target ≥ 3 ∧ (raiders.find target).any fun many => many ≤ 3

/-- Never at each other's throat, though at the same throats. -/
def targetSign (left right : Str) (a b : Traits) (raiders : KeyMap Str ℕ) (name : Str → Str) : List Finding :=
  if raidsOf a ≥ 10 ∧ raidsOf b ≥ 10 ∧ raidedBy a right = 0 ∧ raidedBy b left = 0 then
    match a.raids.entries.find? fun entry => sharesTarget b raiders entry.1 entry.2 with
    | none => []
    | some entry => [⟨15, utf8 "colpiscono tutti e due " ++ name entry.1 ++ utf8 " ma non si attaccano mai"⟩]
  else []

/-- Whether one of those times is within ten seconds. -/
def isNear (times : List ℤ) (start : ℤ) : Bool := (lowerBound times (start - 10)).any fun near => near ≤ start + 10

/-- How often one sets off when the other does. -/
def startsNear (a b : Traits) : ℕ := a.starts.countP fun start => isNear b.starts start

/-- As many as chance alone would give, from how often the other sets off while about. -/
def byChance (a b : Traits) : ℚ :=
  if b.buckets.entries = [] then 0
  else
    let rate : ℚ := b.starts.length / (b.buckets.entries.length * bucketSeconds)
    (a.starts.map fun start => if (b.buckets.find (start.tdiv bucketSeconds)).isSome then 21 * rate else 0).sum

/-- Whether the first sets off with the second, far more often than chance has it. -/
def movesWith (a b : Traits) : Prop :=
  a.starts.length ≥ 10 ∧ b.starts.length ≥ 10 ∧
    percent (startsNear a b) (min a.starts.length b.starts.length) ≥ 30 ∧ startsNear a b ≥ 10 ∧
    4 * byChance a b ≤ startsNear a b

instance (a b : Traits) : Decidable (movesWith a b) := inferInstanceAs (Decidable (_ ∧ _))

/-- Moving together, as one script does with two names. -/
def movingSign (a b : Traits) : List Finding :=
  if movesWith a b then
    [⟨30, utf8 "partono insieme, a pochi secondi l'uno dall'altro (" ++ decimal (startsNear a b) ++ utf8 " volte)"⟩]
  else []

/-- The order of `std::pair`. -/
def comesBefore (one other : ℤ × Bool) : Prop := one.1 < other.1 ∨ (one.1 = other.1 ∧ one.2 ≤ other.2)

instance : DecidableRel comesBefore := fun _ _ => inferInstanceAs (Decidable (_ ∨ _))

/-- The times of both in order, those of the first marked. -/
def mergedBuckets (a b : Traits) : List (ℤ × Bool) :=
  ((a.buckets.keys.map fun bucket => (bucket, true)) ++ b.buckets.keys.map fun bucket => (bucket, false)).insertionSort
    comesBefore

/-- How often one stops and the other starts. -/
def switchesIn : List (ℤ × Bool) → ℕ
  | first :: second :: merged =>
    (if second.2 ≠ first.2 ∧ second.1 - first.1 ≤ 2 then 1 else 0) + switchesIn (second :: merged)
  | _ => 0

def sharedBuckets (a b : Traits) : ℕ := a.buckets.keys.countP fun bucket => (b.buckets.find bucket).isSome

/-- Whether the two are never about together, and one starts where the other stops. -/
def takesTurns (a b : Traits) : Prop :=
  a.buckets.keys.length ≥ 12 ∧ b.buckets.keys.length ≥ 12 ∧
    sharedBuckets a b * 20 ≤ min a.buckets.keys.length b.buckets.keys.length ∧ switchesIn (mergedBuckets a b) ≥ 4

instance (a b : Traits) : Decidable (takesTurns a b) := inferInstanceAs (Decidable (_ ∧ _))

/-- Taking turns, as one person does with two names. -/
def turnsSign (a b : Traits) : List Finding :=
  if takesTurns a b then
    [⟨20, utf8 "mai attivi insieme: quando uno smette l'altro comincia (" ++ decimal (switchesIn (mergedBuckets a b)) ++
      utf8 " cambi)"⟩]
  else []

/-- The same machine behind both on IRC. -/
def hostSign (a b : Traits) : List Finding :=
  if a.hosts.keys.any fun host => (b.hosts.find host).isSome then [⟨40, utf8 "stesso host IRC"⟩] else []

def namesSign (leftName rightName : Str) : List Finding :=
  if namesAlike leftName rightName then [⟨15, utf8 "nomi simili"⟩] else []

/-- Both first seen within two days, once the sentinel had watched long enough to know who was there before. -/
def appearedSign (a b : Traits) (started : ℤ) : List Finding :=
  if started + 3 * 24 * 3600 < a.firstSeen ∧ started + 3 * 24 * 3600 < b.firstSeen ∧
      (a.firstSeen - b.firstSeen).natAbs ≤ 2 * 24 * 3600 then
    [⟨10, utf8 "comparsi a meno di due giorni l'uno dall'altro"⟩]
  else []

def pairSigns (left : Str) (a : Traits) (right : Str) (b : Traits) (started : ℤ) (raiders : KeyMap Str ℕ)
    (name : Str → Str) : List Finding :=
  feedingSign left right (name left) (name right) a b ++ targetSign left right a b raiders name ++ movingSign a b ++
    turnsSign a b ++ hostSign a b ++ namesSign (name left) (name right) ++ appearedSign a b started

end NorelecBot.Watch
