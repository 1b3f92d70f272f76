import NorelecBot.Watch.HandOvers
import Mathlib.Tactic.Ring
import Mathlib.Tactic.FieldSimp

/-! # What two accounts did lately

Counted from the acts of the last week alone: the presents and robberies of each, when
they set off, and the ten minutes they were about. What two accounts are compared by is
no more than these counts.
-/

namespace NorelecBot.Watch
open Lib

section
variable (acts theirs : List Act)

def presentsTo (other : Str) : ℕ := acts.countP fun act => act.kind = .gives ∧ act.target = other

def robberiesOf (target : Str) : ℕ := acts.countP fun act => act.kind = .robs ∧ act.target = target

def robberies : ℕ := acts.countP fun act => act.kind = .robs

def setOffs : List ℤ := (acts.filter fun act => act.kind ≠ .claims).map Act.at'

/-- The ten minutes in which something was done. -/
def stretchesOf : Finset ℤ := (acts.map fun act => act.at'.tdiv bucketSeconds).toFinset

/-- How often the first set off beside a start of the other that the search finds. -/
def besides : ℕ := (setOffs acts).countP fun start => isNear (setOffs theirs) start

/-- How often the first set off while the other was about. -/
def amid : ℕ := (setOffs acts).countP fun start => start.tdiv bucketSeconds ∈ stretchesOf theirs

/-- Beside the other at least ten times, three times in ten, and four times as often as by chance. -/
def SetsOffBeside : Prop :=
  10 ≤ (setOffs acts).length ∧ 10 ≤ (setOffs theirs).length ∧ 10 ≤ besides acts theirs ∧
    30 * min (setOffs acts).length (setOffs theirs).length ≤ 100 * besides acts theirs ∧
    4 * (21 * amid acts theirs * (setOffs theirs).length) ≤ besides acts theirs * ((stretchesOf theirs).card * 600)

instance : Decidable (SetsOffBeside acts theirs) := inferInstanceAs (Decidable (_ ∧ _))

/-- Each about often, hardly ever together, and four times one after the other. -/
def HandsOver : Prop :=
  12 ≤ (stretchesOf acts).card ∧ 12 ≤ (stretchesOf theirs).card ∧
    20 * (stretchesOf acts ∩ stretchesOf theirs).card ≤ min (stretchesOf acts).card (stretchesOf theirs).card ∧
    4 ≤ handOvers (stretchesOf acts) (stretchesOf theirs)

instance : Decidable (HandsOver acts theirs) := inferInstanceAs (Decidable (_ ∧ _))

end

section
variable (memory : Memory) (now : ℤ) (left right : Str)

/-- What is on record of an account, or of one that never did anything. -/
def Memory.record (key : Str) : Player := (memory.players.find key).getD {}

/-- What an account did in the last week. -/
def Memory.lately (key : Str) : List Act :=
  (memory.record key).acts.filter fun act => now - rememberedSeconds ≤ act.at'

/-- How many accounts robbed somebody in the last week. -/
def Memory.robbersOf (target : Str) : ℕ :=
  memory.players.keys.countP fun key => 0 < robberiesOf (memory.lately now key) target

/-- The machines of the identities that play as an account. -/
def Memory.hostsOf (key : Str) : List Str :=
  ((memory.identities.entries.filter fun entry => entry.2.player = key).map fun entry => entry.2.host).filter
    fun host => host ≠ []

/-- What presents that only ever go one way are worth. -/
def presentPoints (there back : ℕ) : ℕ :=
  if 2 ≤ there ∧ back = 0 then feedingPoints there else if 2 ≤ back ∧ there = 0 then feedingPoints back else 0

/-- Both rob somebody few rob, and never each other. -/
def Memory.RobTogether : Prop :=
  let mine := memory.lately now left
  let theirs := memory.lately now right
  10 ≤ robberies mine ∧ 10 ≤ robberies theirs ∧ robberiesOf mine right = 0 ∧ robberiesOf theirs left = 0 ∧
    ∃ act ∈ mine, 3 ≤ robberiesOf mine act.target ∧ 3 ≤ robberiesOf theirs act.target ∧
      memory.robbersOf now act.target ≤ 3

instance : Decidable (memory.RobTogether now left right) := inferInstanceAs (Decidable (_ ∧ _))

def Memory.ShareHost : Prop := ∃ host ∈ memory.hostsOf left, host ∈ memory.hostsOf right

instance : Decidable (memory.ShareHost left right) := inferInstanceAs (Decidable (∃ host ∈ _, _))

/-- Both appeared within two days, after three days of watching. -/
def Memory.AppearTogether : Prop :=
  memory.started + 3 * 24 * 3600 < (memory.record left).firstSeen ∧
    memory.started + 3 * 24 * 3600 < (memory.record right).firstSeen ∧
    ((memory.record left).firstSeen - (memory.record right).firstSeen).natAbs ≤ 2 * 24 * 3600

instance : Decidable (memory.AppearTogether left right) := inferInstanceAs (Decidable (_ ∧ _))

/-- What the five signs without sides are worth. -/
def Memory.evenPoints : ℕ :=
  presentPoints (presentsTo (memory.lately now left) right) (presentsTo (memory.lately now right) left) +
    (if memory.RobTogether now left right then 15 else 0) + (if memory.ShareHost left right then 40 else 0) +
    (if namesAlike left right then 15 else 0) + if memory.AppearTogether left right then 10 else 0

/-- From the side of the first, setting off together or handing over makes up what the other signs leave to forty
points, and from the side of the second it does not. -/
def Memory.TipsFrom : Prop :=
  let even := memory.evenPoints now left right
  let mine := memory.lately now left
  let theirs := memory.lately now right
  (20 ≤ even ∧ even < 40 ∧ (SetsOffBeside mine theirs ∨ HandsOver mine theirs) ∧
      ¬ SetsOffBeside theirs mine ∧ ¬ HandsOver theirs mine) ∨
    (10 ≤ even ∧ even < 20 ∧ SetsOffBeside mine theirs ∧ ¬ SetsOffBeside theirs mine) ∨
    (even < 10 ∧ SetsOffBeside mine theirs ∧ HandsOver mine theirs ∧
      ¬ (SetsOffBeside theirs mine ∧ HandsOver theirs mine))

instance : Decidable (memory.TipsFrom now left right) := inferInstanceAs (Decidable (_ ∨ _))

end

theorem find_tally (names : List Str) (name : Str) :
    (tally names).find name = if names.count name = 0 then none else some (names.count name) := by
  induction names using List.reverseRecOn with
  | nil => rfl
  | append_singleton names last ih =>
    have hsnoc : tally (names ++ [last]) = (tally names).alter last fun count => count.getD 0 + 1 := by
      rw [tally, List.foldl_append]
      rfl
    rw [hsnoc, KeyMap.find_alter, List.count_append]
    by_cases hlast : name = last
    · rw [← hlast, ih]
      by_cases hnone : names.count name = 0 <;> simp [hnone]
    · have hzero : [last].count name = 0 := List.count_eq_zero.mpr (by simpa using hlast)
      rw [if_neg hlast, hzero, add_zero, ih]

theorem tally_getD (names : List Str) (name : Str) : ((tally names).find name).getD 0 = names.count name := by
  rw [find_tally]
  by_cases hnone : names.count name = 0 <;> simp [hnone]

/-- What is told of all names is as many as there are. -/
theorem tally_total (names : List Str) : ((tally names).entries.map Prod.snd).sum = names.length := by
  have hlength (counts : KeyMap Str ℕ) : (counts.entries.map Prod.snd).sum =
      (counts.entries.flatMap fun entry => List.replicate entry.2 ()).length := by
    simp [List.length_flatMap]
  induction names using List.reverseRecOn with
  | nil => rfl
  | append_singleton names last ih =>
    have hsnoc : tally (names ++ [last]) = (tally names).alter last fun count => count.getD 0 + 1 := by
      rw [tally, List.foldl_append]
      rfl
    have hperm := (tally names).flatMap_alter_perm last (fun count => count.getD 0 + 1)
      (fun entry => List.replicate entry.2 ()) [()] (by
        cases (tally names).find last with
        | none => exact List.Perm.refl _
        | some count => exact (List.replicate_succ' ▸ List.Perm.refl _))
    rw [hsnoc, hlength, hperm.length_eq, List.length_append, ← hlength, ih, List.length_append]
    rfl

theorem count_actsOn (acts : List Act) (kind : ActKind) (name : Str) :
    (actsOn acts kind).count name = acts.countP fun act => act.kind = kind ∧ act.target = name := by
  rw [actsOn, List.count, List.countP_map, List.countP_filter]
  apply List.countP_congr
  intro act _
  simp [and_comm]

section
variable (identities : KeyMap Str Identity) (key : Str) (recent : Player)

theorem givenTo_traitsOf (other : Str) : givenTo (traitsOf identities key recent) other = presentsTo recent.acts other := by
  rw [givenTo, traitsOf, tally_getD, count_actsOn, presentsTo]

theorem raidedBy_traitsOf (target : Str) :
    raidedBy (traitsOf identities key recent) target = robberiesOf recent.acts target := by
  rw [raidedBy, traitsOf, tally_getD, count_actsOn, robberiesOf]

theorem raidsOf_traitsOf : raidsOf (traitsOf identities key recent) = robberies recent.acts := by
  rw [raidsOf, traitsOf, tally_total, actsOn, List.length_map, ← List.countP_eq_length_filter, robberies]

theorem about_traitsOf : (traitsOf identities key recent).about = stretchesOf recent.acts := by
  ext stretch
  rw [Traits.about, List.mem_toFinset, traitsOf, KeyMap.mem_keys_ofKeys, stretchesOf, List.mem_toFinset]

theorem mem_hosts_traitsOf (host : Str) : host ∈ (traitsOf identities key recent).hosts.keys ↔
    host ∈ ((playedBy identities key).map fun entry => entry.2.host).filter fun host => host ≠ [] := by
  rw [traitsOf, KeyMap.mem_keys_ofKeys]

end

theorem card_about (traits : Traits) : traits.about.card = traits.buckets.keys.length :=
  List.toFinset_card_of_nodup traits.buckets.nodup_keys

theorem mem_about {traits : Traits} {stretch : ℤ} :
    stretch ∈ traits.about ↔ (traits.buckets.find stretch).isSome = true := by
  rw [Traits.about, List.mem_toFinset, KeyMap.mem_keys, Option.isSome_iff_exists]

theorem sharedBuckets_eq (a b : Traits) : sharedBuckets a b = (a.about ∩ b.about).card := by
  have hinter : a.about ∩ b.about = (a.buckets.keys.filter fun bucket => (b.buckets.find bucket).isSome).toFinset := by
    ext stretch
    rw [Finset.mem_inter, @mem_about b, List.mem_toFinset, List.mem_filter, Traits.about, List.mem_toFinset]
  rw [hinter, List.toFinset_card_of_nodup (a.buckets.nodup_keys.filter _), sharedBuckets, List.countP_eq_length_filter]

section
variable (identities : KeyMap Str Identity) (left right : Str) (recent other : Player)

theorem takesTurns_traitsOf :
    takesTurns (traitsOf identities left recent) (traitsOf identities right other) ↔
      HandsOver recent.acts other.acts := by
  rw [takesTurns, HandsOver, ← card_about, ← card_about, sharedBuckets_eq, switchesIn_mergedBuckets, about_traitsOf,
    about_traitsOf, mul_comm 20]

/-- The chance of one start, as often as there is one amid the other's stretches. -/
theorem sum_chance (starts : List ℤ) (p : ℤ → Bool) (chance : ℚ) :
    (starts.map fun start => if p start then chance else 0).sum = starts.countP p * chance := by
  induction starts with
  | nil => simp
  | cons start starts ih =>
    rw [List.map_cons, List.sum_cons, ih, List.countP_cons]
    by_cases hp : p start
    · simp [hp]
      ring
    · simp [hp]

theorem byChance_traitsOf (h : 0 < (stretchesOf other.acts).card) :
    byChance (traitsOf identities left recent) (traitsOf identities right other) =
      (21 * amid recent.acts other.acts * (setOffs other.acts).length : ℕ) /
        ((stretchesOf other.acts).card * 600 : ℕ) := by
  have hcard := card_about (traitsOf identities right other)
  rw [about_traitsOf] at hcard
  have hlength : (traitsOf identities right other).buckets.entries.length = (stretchesOf other.acts).card := by
    rw [hcard, KeyMap.keys, List.length_map]
  have hsome : (traitsOf identities right other).buckets.entries ≠ [] := by
    intro hnone
    rw [hnone] at hlength
    simp at hlength
    omega
  have hamid : (traitsOf identities left recent).starts.countP
      (fun start => ((traitsOf identities right other).buckets.find (start.tdiv bucketSeconds)).isSome) =
        amid recent.acts other.acts := by
    apply List.countP_congr
    intro start _
    rw [← mem_about, about_traitsOf, decide_eq_true_eq]
  rw [byChance, if_neg hsome, sum_chance, hamid, hlength]
  have hstarts : (traitsOf identities right other).starts = setOffs other.acts := rfl
  rw [hstarts, bucketSeconds]
  push_cast
  field_simp

theorem movesWith_traitsOf :
    movesWith (traitsOf identities left recent) (traitsOf identities right other) ↔
      SetsOffBeside recent.acts other.acts := by
  have hstarts (key : Str) (player : Player) : (traitsOf identities key player).starts = setOffs player.acts := rfl
  have hnear : startsNear (traitsOf identities left recent) (traitsOf identities right other) =
      besides recent.acts other.acts := rfl
  rw [movesWith, SetsOffBeside, hnear, hstarts, hstarts]
  apply and_congr_right
  intro hten
  apply and_congr_right
  intro hten'
  have habout : 0 < (stretchesOf other.acts).card := by
    rw [Finset.card_pos]
    obtain ⟨start, hstart⟩ := List.exists_mem_of_length_pos (lt_of_lt_of_le (by decide : 0 < 10) hten')
    obtain ⟨act, hact, -⟩ := List.mem_map.mp hstart
    exact ⟨_, List.mem_toFinset.mpr (List.mem_map_of_mem (List.mem_of_mem_filter hact))⟩
  have hchance : 4 * byChance (traitsOf identities left recent) (traitsOf identities right other) ≤
      (besides recent.acts other.acts : ℚ) ↔
        4 * (21 * amid recent.acts other.acts * (setOffs other.acts).length) ≤
          besides recent.acts other.acts * ((stretchesOf other.acts).card * 600) := by
    have hpositive : (0 : ℚ) < ((stretchesOf other.acts).card * 600 : ℕ) :=
      Nat.cast_pos.mpr (Nat.mul_pos habout (by decide))
    rw [byChance_traitsOf _ _ _ _ _ habout, ← mul_div_assoc, div_le_iff₀ hpositive]
    norm_cast
  have hshare : percent (besides recent.acts other.acts) (min (setOffs recent.acts).length (setOffs other.acts).length) ≥ 30 ↔
      30 * min (setOffs recent.acts).length (setOffs other.acts).length ≤ 100 * besides recent.acts other.acts := by
    rw [percent, if_neg (by omega), ge_iff_le, Nat.le_div_iff_mul_le (by omega), mul_comm 100]
  rw [hchance, hshare]
  tauto

end

end NorelecBot.Watch
