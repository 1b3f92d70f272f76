import NorelecBot.Watch.Groups
import NorelecBot.Watch.Lately

/-! # The same person from either side

Five of the seven signs of a pair are worth the same whichever account comes first.
Moving together and taking turns are looked for from one side only, and may be seen
from there and not from the other.
-/

namespace NorelecBot.Watch
open Lib Lib.UnionFind

def pointsOf (found : List Finding) : ℕ := (found.map Finding.points).sum

theorem pointsOf_append (found more : List Finding) : pointsOf (found ++ more) = pointsOf found + pointsOf more := by
  rw [pointsOf, List.map_append, List.sum_append]
  rfl

theorem pointsOf_if (p : Prop) [Decidable p] (points : ℕ) (why : Str) :
    pointsOf (if p then [⟨points, why⟩] else []) = if p then points else 0 := by
  by_cases hp : p <;> simp [hp, pointsOf]

theorem feedingSign_points (left right leftName rightName : Str) (a b : Traits) :
    pointsOf (feedingSign left right leftName rightName a b) = presentPoints (givenTo a right) (givenTo b left) := by
  rw [feedingSign, presentPoints]
  by_cases hthere : givenTo a right ≥ 2 ∧ givenTo b left = 0
  · rw [if_pos hthere, if_pos hthere]
    rfl
  · rw [if_neg hthere, if_neg hthere, pointsOf_if]

theorem presentPoints_comm (there back : ℕ) : presentPoints back there = presentPoints there back := by
  rw [presentPoints, presentPoints]
  by_cases hthere : 2 ≤ there ∧ back = 0
  · rw [if_neg (by omega), if_pos hthere, if_pos hthere]
  · rw [if_neg hthere, if_neg hthere]

/-- The target looked for among those of the first account is there whenever there is any. -/
theorem targetSign_points (left right : Str) (a b : Traits) (raiders : KeyMap Str ℕ) (name : Str → Str)
    (shared : Prop) [Decidable shared]
    (h : (∃ target, raidedBy a target ≥ 3 ∧ raidedBy b target ≥ 3 ∧
      (raiders.find target).any (fun many => many ≤ 3) = true) ↔ shared) :
    pointsOf (targetSign left right a b raiders name) =
      if (raidsOf a ≥ 10 ∧ raidsOf b ≥ 10 ∧ raidedBy a right = 0 ∧ raidedBy b left = 0) ∧ shared then 15 else 0 := by
  have hfound : (a.raids.entries.find? fun entry => sharesTarget b raiders entry.1 entry.2).isSome ↔ shared := by
    rw [← h, List.find?_isSome]
    constructor
    · rintro ⟨⟨target, count⟩, hentry, hshares⟩
      simp only [sharesTarget, decide_eq_true_eq] at hshares
      have hcount : raidedBy a target = count := by
        rw [raidedBy, KeyMap.find_eq_some.mpr hentry]
        rfl
      exact ⟨target, hcount ▸ hshares.1, hshares.2⟩
    · rintro ⟨target, ha, hb, hfew⟩
      cases hfind : a.raids.find target with
      | none =>
        rw [raidedBy, hfind] at ha
        simp at ha
      | some count =>
        refine ⟨(target, count), KeyMap.find_eq_some.mp hfind, ?_⟩
        rw [raidedBy, hfind] at ha
        simpa [sharesTarget] using ⟨ha, hb, hfew⟩
  rw [targetSign]
  by_cases hpeace : raidsOf a ≥ 10 ∧ raidsOf b ≥ 10 ∧ raidedBy a right = 0 ∧ raidedBy b left = 0
  · rw [if_pos hpeace]
    cases hfind : a.raids.entries.find? fun entry => sharesTarget b raiders entry.1 entry.2 with
    | none =>
      rw [hfind] at hfound
      rw [if_neg fun both => by simpa using hfound.mpr both.2]
      rfl
    | some entry =>
      rw [hfind] at hfound
      rw [if_pos ⟨hpeace, hfound.mp rfl⟩]
      rfl
  · rw [if_neg hpeace, if_neg fun both => hpeace both.1]
    rfl

theorem namesAlike_comm (left right : Str) : namesAlike right left = namesAlike left right := by
  simp only [namesAlike]
  rcases lt_trichotomy (normalized left).length (normalized right).length with hlt | heq | hgt
  · rw [if_pos hlt, if_neg (not_lt.mpr hlt.le)]
  · rw [if_neg (not_lt.mpr heq.ge), if_neg (not_lt.mpr heq.le), heq]
    congr 1
    -- of two as long as each other, one begins with the other only when they are the same
    have hsame {one other : Str} (hlength : one.length = other.length) (h : one.isPrefixOf other) : one = other :=
      (List.isPrefixOf_iff_prefix.mp h).eq_of_length hlength
    apply Bool.eq_iff_iff.mpr
    constructor
    · intro h
      rw [hsame heq.symm h]
      exact List.isPrefixOf_iff_prefix.mpr (List.prefix_refl _)
    · intro h
      rw [hsame heq h]
      exact List.isPrefixOf_iff_prefix.mpr (List.prefix_refl _)
  · rw [if_neg (not_lt.mpr hgt.le), if_pos hgt]

/-- What the one-sided signs have to add, the less the other five are worth. -/
theorem enough_iff (common : ℕ) (moves turns : Prop) [Decidable moves] [Decidable turns] :
    pairPoints ≤ common + (if moves then 30 else 0) + (if turns then 20 else 0) ↔
      40 ≤ common ∨ (20 ≤ common ∧ (moves ∨ turns)) ∨ (10 ≤ common ∧ common < 20 ∧ moves) ∨
        (common < 10 ∧ moves ∧ turns) := by
  rw [pairPoints]
  by_cases hmoves : moves
  · by_cases hturns : turns
    · simp only [hmoves, hturns, if_true, and_true, or_true]
      omega
    · simp only [hmoves, hturns, if_true, if_false, or_false, and_true, and_false]
      omega
  · by_cases hturns : turns
    · simp only [hmoves, hturns, if_true, if_false, or_true, and_true, and_false, or_false]
      omega
    · simp only [hmoves, hturns, if_false, and_false, or_false, add_zero]

theorem count_keys_tally (names : List Str) (name : Str) :
    (tally names).keys.count name = if 0 < names.count name then 1 else 0 := by
  rw [(tally names).nodup_keys.count]
  apply if_congr _ rfl rfl
  rw [KeyMap.mem_keys, find_tally]
  by_cases hnone : names.count name = 0
  · simp [hnone]
  · simp [hnone, Nat.pos_of_ne_zero hnone]

section
variable (memory : Memory) (now : ℤ) (left right : Str)

/-- Those of one account, from what it did lately. -/
def Memory.traitsBy (key : Str) : Traits :=
  traitsOf memory.identities key ((memory.record key).since (now - rememberedSeconds))

theorem exists_robbery {acts : List Act} {target : Str} (h : 3 ≤ robberiesOf acts target) :
    ∃ act ∈ acts, act.target = target := by
  obtain ⟨act, hact, hrobs⟩ := List.countP_pos_iff.mp (lt_of_lt_of_le (by decide : 0 < 3) h)
  exact ⟨act, hact, (of_decide_eq_true hrobs).2⟩

theorem Memory.robbersOf_pos {target : Str} (h : 3 ≤ robberiesOf (memory.lately now left) target) :
    0 < memory.robbersOf now target := by
  rw [Memory.robbersOf, List.countP_pos_iff]
  refine ⟨left, ?_, decide_eq_true (lt_of_lt_of_le (by decide) h)⟩
  rw [KeyMap.mem_keys]
  cases hfind : memory.players.find left with
  | none =>
    rw [Memory.lately, Memory.record, hfind] at h
    simp [robberiesOf] at h
  | some player => exact ⟨player, rfl⟩

theorem Memory.robTogether_comm : memory.RobTogether now right left ↔ memory.RobTogether now left right := by
  have hswap (left right : Str) (h : memory.RobTogether now left right) : memory.RobTogether now right left := by
    obtain ⟨hmine, htheirs, hpeace, hpeace', act, -, hone, hother, hfew⟩ := h
    obtain ⟨act', hact', htarget⟩ := exists_robbery hother
    exact ⟨htheirs, hmine, hpeace', hpeace, act', hact', htarget ▸ hother, htarget ▸ hone, htarget ▸ hfew⟩
  exact ⟨hswap right left, hswap left right⟩

theorem Memory.evenPoints_comm : memory.evenPoints now right left = memory.evenPoints now left right := by
  have hhost : memory.ShareHost right left ↔ memory.ShareHost left right := by
    simp only [Memory.ShareHost]
    constructor <;> exact fun ⟨host, hone, hother⟩ => ⟨host, hother, hone⟩
  have happear : memory.AppearTogether right left ↔ memory.AppearTogether left right := by
    simp only [Memory.AppearTogether]
    omega
  simp only [Memory.evenPoints]
  rw [presentPoints_comm, namesAlike_comm]
  simp only [memory.robTogether_comm now left right, hhost, happear]

/-- One of the two did nothing lately, or neither side alone makes one person of them. -/
def Memory.Unswayed : Prop :=
  memory.lately now left = [] ∨ memory.lately now right = [] ∨
    (¬ memory.TipsFrom now left right ∧ ¬ memory.TipsFrom now right left)

instance : Decidable (memory.Unswayed now left right) := inferInstanceAs (Decidable (_ ∨ _))

theorem handsOver_comm {acts theirs : List Act} (h : Disjoint (stretchesOf acts) (stretchesOf theirs)) :
    HandsOver acts theirs ↔ HandsOver theirs acts := by
  rw [HandsOver, HandsOver, handOvers_comm h, Finset.inter_comm, min_comm]
  tauto

/-- Two who never share ten minutes, one of whom hardly ever sets off, look the same from either side. -/
theorem Memory.unswayed_of_apart
    (h : Disjoint (stretchesOf (memory.lately now left)) (stretchesOf (memory.lately now right)))
    (hfew : (setOffs (memory.lately now left)).length < 10 ∨ (setOffs (memory.lately now right)).length < 10) :
    memory.Unswayed now left right := by
  have hleft : ¬ SetsOffBeside (memory.lately now left) (memory.lately now right) := by
    rintro ⟨hmine, htheirs, -⟩
    omega
  have hright : ¬ SetsOffBeside (memory.lately now right) (memory.lately now left) := by
    rintro ⟨hmine, htheirs, -⟩
    omega
  have hturns := handsOver_comm h
  right
  right
  simp only [Memory.TipsFrom, hleft, hright]
  tauto

end

section
variable [Clock] [Arranged] (memory : Memory) (now : ℤ) (left right : Str)

/-- The traits by which the accounts are compared. -/
def Memory.traits : KeyMap Str Traits := (judge memory.players memory.identities now id).traits

theorem Memory.find_traits (key : Str) : (memory.traits now).find key =
    if memory.lately now key = [] then none else some (memory.traitsBy now key) := by
  have hfind : (memory.traits now).find key = (memory.players.find key).bind fun player =>
      if (player.since (now - rememberedSeconds)).acts = [] then none
      else some (traitsOf memory.identities key (player.since (now - rememberedSeconds))) :=
    KeyMap.find_filterMap _ _ _
  rw [hfind, Memory.lately, Memory.traitsBy, Memory.record]
  cases memory.players.find key with
  | none => rfl
  | some player => rfl

/-- Whoever robs somebody has him among his targets once, however often. -/
theorem Memory.find_raiders (target : Str) : (raidersOf (memory.traits now)).find target =
    if memory.robbersOf now target = 0 then none else some (memory.robbersOf now target) := by
  have hcount (entries : List (Str × Player)) :
      ((entries.filterMap fun entry =>
          (if (entry.2.since (now - rememberedSeconds)).acts = [] then none
            else some (traitsOf memory.identities entry.1 (entry.2.since (now - rememberedSeconds)))).map
              (Prod.mk entry.1)).map fun entry => entry.2.raids.keys).flatten.count target =
        entries.countP fun entry => 0 < robberiesOf (entry.2.since (now - rememberedSeconds)).acts target := by
    induction entries with
    | nil => rfl
    | cons entry entries ih =>
      rw [List.countP_cons, ← ih]
      by_cases hidle : (entry.2.since (now - rememberedSeconds)).acts = []
      · simp [hidle, robberiesOf]
      · have hkeys : (traitsOf memory.identities entry.1 (entry.2.since (now - rememberedSeconds))).raids.keys.count target =
            if 0 < robberiesOf (entry.2.since (now - rememberedSeconds)).acts target then 1 else 0 := by
          rw [traitsOf, count_keys_tally, count_actsOn, robberiesOf]
        simp [hidle, hkeys, add_comm]
  have hrobbers : memory.robbersOf now target =
      memory.players.entries.countP fun entry => 0 < robberiesOf (entry.2.since (now - rememberedSeconds)).acts target := by
    rw [Memory.robbersOf, KeyMap.keys, List.countP_map]
    apply List.countP_congr
    intro entry hentry
    rw [Function.comp_apply, Memory.lately, Memory.record, KeyMap.find_eq_some.mpr hentry]
    rfl
  rw [raidersOf, find_tally, hrobbers, ← hcount]
  rfl

theorem Memory.targetSign_eq :
    pointsOf (targetSign left right (memory.traitsBy now left) (memory.traitsBy now right)
      (raidersOf (memory.traits now)) id) = if memory.RobTogether now left right then 15 else 0 := by
  have hraided (key target : Str) : raidedBy (memory.traitsBy now key) target =
      robberiesOf (memory.lately now key) target := raidedBy_traitsOf _ _ _ _
  have hraids (key : Str) : raidsOf (memory.traitsBy now key) = robberies (memory.lately now key) :=
    raidsOf_traitsOf _ _ _
  have hfew (target : Str) : ((raidersOf (memory.traits now)).find target).any (fun many => many ≤ 3) = true ↔
      0 < memory.robbersOf now target ∧ memory.robbersOf now target ≤ 3 := by
    rw [memory.find_raiders]
    by_cases hnone : memory.robbersOf now target = 0
    · simp [hnone]
    · simp [hnone, Nat.pos_of_ne_zero hnone]
  rw [targetSign_points left right _ _ _ id (∃ act ∈ memory.lately now left,
    3 ≤ robberiesOf (memory.lately now left) act.target ∧ 3 ≤ robberiesOf (memory.lately now right) act.target ∧
      memory.robbersOf now act.target ≤ 3)]
  · apply if_congr _ rfl rfl
    simp only [hraided, hraids, Memory.RobTogether, and_assoc, ge_iff_le]
  · simp only [hraided, hfew, ge_iff_le]
    constructor
    · rintro ⟨target, hmine, htheirs, -, hmany⟩
      obtain ⟨act, hact, rfl⟩ := exists_robbery hmine
      exact ⟨act, hact, hmine, htheirs, hmany⟩
    · rintro ⟨act, -, hmine, htheirs, hmany⟩
      exact ⟨act.target, hmine, htheirs, memory.robbersOf_pos now left hmine, hmany⟩

/-- The signs of a pair, from what the two did lately. -/
theorem Memory.pairSigns_points :
    pointsOf (pairSigns left (memory.traitsBy now left) right (memory.traitsBy now right) memory.started
      (raidersOf (memory.traits now)) id) =
      memory.evenPoints now left right + (if SetsOffBeside (memory.lately now left) (memory.lately now right) then 30 else 0) +
        if HandsOver (memory.lately now left) (memory.lately now right) then 20 else 0 := by
  have hgiven (key other : Str) : givenTo (memory.traitsBy now key) other = presentsTo (memory.lately now key) other :=
    givenTo_traitsOf _ _ _ _
  have hmoves : movesWith (memory.traitsBy now left) (memory.traitsBy now right) ↔
      SetsOffBeside (memory.lately now left) (memory.lately now right) := movesWith_traitsOf _ _ _ _ _
  have hturns : takesTurns (memory.traitsBy now left) (memory.traitsBy now right) ↔
      HandsOver (memory.lately now left) (memory.lately now right) := takesTurns_traitsOf _ _ _ _ _
  have hhosts : ((memory.traitsBy now left).hosts.keys.any fun host =>
      ((memory.traitsBy now right).hosts.find host).isSome) = true ↔ memory.ShareHost left right := by
    simp only [List.any_eq_true, Option.isSome_iff_exists, ← KeyMap.mem_keys, Memory.traitsBy, mem_hosts_traitsOf]
    rfl
  have happeared : appearedSign (memory.traitsBy now left) (memory.traitsBy now right) memory.started =
      if memory.AppearTogether left right then
        [⟨10, utf8 "comparsi a meno di due giorni l'uno dall'altro"⟩] else [] := rfl
  rw [pairSigns]
  simp only [pointsOf_append, feedingSign_points, memory.targetSign_eq, movingSign, turnsSign, hostSign, namesSign,
    happeared, pointsOf_if, hgiven, hmoves, hturns, hhosts, Memory.evenPoints, id]
  omega

end

theorem mem_group_pairs {count : ℕ} {pairs : List Pair} (hpairs : ∀ pair ∈ pairs, pair.Inside count) {pair : Pair} :
    (∃ group ∈ groupsFrom (unitePairs (List.range count) pairs) pairs, pair ∈ group.pairs) ↔ pair ∈ pairs := by
  rw [groupsFrom_eq hpairs]
  constructor
  · rintro ⟨group, hgroup, hpair⟩
    obtain ⟨entry, -, rfl⟩ := List.mem_map.mp hgroup
    exact List.mem_of_mem_filter hpair
  · intro hpair
    have hplace : pair.left ∈ sortedMembers (joinedAll id (ends pairs)) (joinedAll id (ends pairs) pair.left) pairs :=
      mem_sortedMembers.mpr ⟨pair, hpair, rfl, .inl rfl⟩
    have hkey := (mem_gathered_keys hpairs).mpr ⟨_, hplace⟩
    obtain ⟨entry, hentry, hroot⟩ := List.mem_map.mp hkey
    refine ⟨_, List.mem_map.mpr ⟨entry, hentry, rfl⟩, List.mem_filter.mpr ⟨hpair, ?_⟩⟩
    rw [hroot]
    simp

section
variable (entries : List (Str × Traits)) (started : ℤ) (raiders : KeyMap Str ℕ) (name : Str → Str)

theorem mem_scan {pair : Pair} : pair ∈ (scan entries started raiders name).2 ↔
    pair.Inside entries.length ∧ pairAt entries started raiders name (pair.left, pair.right) = some pair := by
  rw [scan_eq]
  dsimp only
  rw [List.mem_filterMap]
  constructor
  · rintro ⟨place, hplace, hpair⟩
    obtain ⟨hleft, hright⟩ := pairAt_places entries started raiders name hpair
    rw [Pair.Inside, hleft, hright]
    exact ⟨mem_placesOf.mp hplace, hpair⟩
  · rintro ⟨hinside, hpair⟩
    exact ⟨(pair.left, pair.right), mem_placesOf.mpr hinside, hpair⟩

theorem pairAt_eq_some {place : ℕ × ℕ} : (∃ pair, pairAt entries started raiders name place = some pair) ↔
    ∃ one other, entries[place.1]? = some one ∧ entries[place.2]? = some other ∧
      pairPoints ≤ total (pairSigns one.1 one.2 other.1 other.2 started raiders name) := by
  simp only [pairAt, Option.bind_eq_bind, Option.bind_eq_some_iff]
  constructor
  · rintro ⟨pair, one, hone, other, hother, hfound⟩
    by_cases henough : pairPoints ≤ total (pairSigns one.1 one.2 other.1 other.2 started raiders name)
    · exact ⟨one, other, hone, hother, henough⟩
    · rw [if_neg henough] at hfound
      cases hfound
  · rintro ⟨one, other, hone, hother, henough⟩
    exact ⟨_, one, hone, other, hother, if_pos henough⟩

end

/-- The place of a key, and the keys of two places in their order. -/
theorem exists_place {α : Type*} {m : KeyMap Str α} {key : Str} {value : α} (h : m.find key = some value) :
    ∃ place : ℕ, m.entries[place]? = some (key, value) :=
  List.mem_iff_getElem?.mp (KeyMap.find_eq_some.mp h)

theorem keys_of_places {α : Type*} {m : KeyMap Str α} {one other : ℕ} {first second : Str × α}
    (hone : m.entries[one]? = some first) (hother : m.entries[other]? = some second) (hlt : one < other) :
    first.1 < second.1 := by
  obtain ⟨hone', rfl⟩ := List.getElem?_eq_some_iff.mp hone
  obtain ⟨hother', rfl⟩ := List.getElem?_eq_some_iff.mp hother
  exact List.pairwise_iff_getElem.mp m.sorted one other hone' hother' hlt

section
variable [Clock] [Arranged] (memory : Memory) (now : ℤ) (left right : Str)

/-- The report, with every key for its name, shows the two side by side as one person. -/
def Memory.Lists : Prop :=
  ∃ group ∈ memory.groups now id, ∃ pair ∈ group.pairs,
    (nameAt (memory.traits now).entries id pair.left = left ∧ nameAt (memory.traits now).entries id pair.right = right) ∨
    (nameAt (memory.traits now).entries id pair.left = right ∧ nameAt (memory.traits now).entries id pair.right = left)

/-- Both did something in the last week, and the signs between them are enough. -/
def Memory.LooksSame : Prop :=
  ∃ a b, (memory.traits now).find left = some a ∧ (memory.traits now).find right = some b ∧
    pairPoints ≤ total (pairSigns left a right b memory.started (raidersOf (memory.traits now)) id)

theorem Memory.samePerson_iff : memory.samePerson left right now = true ↔ memory.LooksSame now left right := by
  simp only [Memory.samePerson, Memory.LooksSame, Memory.traits]
  cases hleft : (judge memory.players memory.identities now id).traits.find left with
  | none => simp
  | some a =>
    cases hright : (judge memory.players memory.identities now id).traits.find right with
    | none => simp
    | some b => simp

theorem Memory.lists_comm : memory.Lists now left right ↔ memory.Lists now right left := by
  simp only [Memory.Lists, or_comm]

/-- Of two accounts, the report compares the one with the first key to the other. -/
theorem Memory.lists_iff {left right : Str} (hlt : left < right) :
    memory.Lists now left right ↔ memory.LooksSame now left right := by
  have hpairs := scan_inside (memory.traits now).entries memory.started (raidersOf (memory.traits now)) id
  have hscanned : (memory.scanned now id).2 =
      (scan (memory.traits now).entries memory.started (raidersOf (memory.traits now)) id).2 := rfl
  rw [Memory.Lists, Memory.LooksSame, memory.groups_eq, hscanned]
  constructor
  · rintro ⟨group, hgroup, pair, hpair, hnames⟩
    have hscan := (mem_scan _ _ _ _).mp ((mem_group_pairs hpairs).mp ⟨group, hgroup, hpair⟩)
    obtain ⟨one, other, hone, hother, henough⟩ := (pairAt_eq_some _ _ _ _).mp ⟨pair, hscan.2⟩
    have horder := keys_of_places hone hother hscan.1.1
    simp only [nameAt, hone, hother, Option.elim_some, id] at hnames
    rcases hnames with ⟨rfl, rfl⟩ | ⟨rfl, rfl⟩
    · exact ⟨one.2, other.2, KeyMap.find_eq_some.mpr (List.mem_of_getElem? hone),
        KeyMap.find_eq_some.mpr (List.mem_of_getElem? hother), henough⟩
    · exact absurd (KeyOrder.trans horder hlt) (KeyOrder.irrefl _)
  · rintro ⟨a, b, ha, hb, henough⟩
    obtain ⟨one, hone⟩ := exists_place ha
    obtain ⟨other, hother⟩ := exists_place hb
    have hplaces : one < other := by
      rcases lt_trichotomy one other with h | h | h
      · exact h
      · rw [h, hother, Option.some.injEq, Prod.mk.injEq] at hone
        exact absurd (hone.1 ▸ hlt) (KeyOrder.irrefl _)
      · exact absurd (KeyOrder.trans hlt (keys_of_places hother hone h)) (KeyOrder.irrefl _)
    obtain ⟨pair, hpair⟩ := (@pairAt_eq_some (memory.traits now).entries memory.started (raidersOf (memory.traits now)) id
      (one, other)).mpr ⟨(left, a), (right, b), hone, hother, henough⟩
    obtain ⟨hleft, hright⟩ := pairAt_places _ _ _ _ hpair
    dsimp only at hleft hright
    have hinside : pair.Inside (memory.traits now).entries.length := by
      rw [Pair.Inside, hleft, hright]
      exact ⟨hplaces, (List.getElem?_eq_some_iff.mp hother).1⟩
    have hscan := (mem_scan (memory.traits now).entries memory.started (raidersOf (memory.traits now)) id).mpr
      ⟨hinside, by rw [hleft, hright]; exact hpair⟩
    obtain ⟨group, hgroup, hin⟩ := (mem_group_pairs hpairs).mpr hscan
    refine ⟨group, hgroup, pair, hin, .inl ?_⟩
    simp only [nameAt, hleft, hright, hone, hother, Option.elim_some, id, and_self]

theorem Memory.looksSame_iff : memory.LooksSame now left right ↔
    memory.lately now left ≠ [] ∧ memory.lately now right ≠ [] ∧
      pairPoints ≤ memory.evenPoints now left right +
        (if SetsOffBeside (memory.lately now left) (memory.lately now right) then 30 else 0) +
          if HandsOver (memory.lately now left) (memory.lately now right) then 20 else 0 := by
  rw [Memory.LooksSame, memory.find_traits, memory.find_traits]
  by_cases hleft : memory.lately now left = []
  · simp [hleft]
  · by_cases hright : memory.lately now right = []
    · simp [hright]
    · rw [if_neg hleft, if_neg hright, ← memory.pairSigns_points]
      simp only [Option.some.injEq, exists_and_left, exists_eq_left', hleft, hright, ne_eq, not_false_iff, true_and]
      rw [total, ← pointsOf, pairPoints]
      omega

/-- What both sides see differs just when the signs tip the pair from one of them. -/
theorem Memory.looksSame_swap_iff :
    (memory.LooksSame now left right ↔ memory.LooksSame now right left) ↔ memory.Unswayed now left right := by
  rw [memory.looksSame_iff, memory.looksSame_iff, Memory.Unswayed]
  by_cases hleft : memory.lately now left = []
  · simp [hleft]
  · by_cases hright : memory.lately now right = []
    · simp [hright]
    · simp only [hleft, hright, ne_eq, not_false_iff, true_and, false_or]
      rw [enough_iff, enough_iff, Memory.TipsFrom, Memory.TipsFrom, memory.evenPoints_comm now left right]
      generalize memory.evenPoints now left right = even
      by_cases hall : 40 ≤ even
      · have htwenty : ¬ even < 40 ∧ ¬ even < 20 ∧ ¬ even < 10 := by omega
        simp only [hall, htwenty, true_or, false_and, and_false, or_false, not_false_iff, and_self]
      · by_cases htwenty : 20 ≤ even
        · have hmore : ¬ even < 20 ∧ ¬ even < 10 := by omega
          simp only [hall, htwenty, hmore, not_le.mp hall, true_and, false_and, and_false, or_false, false_or]
          tauto
        · by_cases hten : 10 ≤ even
          · simp only [hall, htwenty, hten, not_le.mp htwenty, not_lt.mpr hten, true_and, false_and, or_false, false_or]
            tauto
          · simp only [hall, htwenty, hten, not_le.mp hten, true_and, false_and, false_or]
            tauto

/-- The two are told as one person the same way round as the other, and as the report lists them, just when no sign
seen from one side only tips the pair. -/
theorem same_person_iff (hne : left ≠ right) :
    (memory.samePerson left right now = memory.samePerson right left now ∧
      (memory.samePerson left right now = true ↔ memory.Lists now left right)) ↔ memory.Unswayed now left right := by
  rw [← memory.looksSame_swap_iff, Bool.eq_iff_iff, memory.samePerson_iff, memory.samePerson_iff]
  rcases KeyOrder.total left right with hlt | heq | hgt
  · rw [memory.lists_iff now hlt, and_iff_left Iff.rfl]
  · exact absurd heq hne
  · rw [memory.lists_comm, memory.lists_iff now hgt, and_self_iff]

end

def annaRides (target : Str) (gift : Bool) (bucket : ℕ) : Told := .ride (utf8 "anna") target gift (bucket * 600)

def brunoRides (bucket : ℕ) : Told := .ride (utf8 "bruno") (utf8 "carlo") false (bucket * 600 + 300)

/-- Three presents from anna, her rides, the ten minutes both are about, one more change, and his rides. -/
def turnsTaken : List Told :=
  (List.range' 1 3).map (annaRides (utf8 "bruno") true) ++ (List.range' 4 14).map (annaRides (utf8 "dario") false) ++
    [annaRides (utf8 "dario") false 21, annaRides (utf8 "dario") false 22, brunoRides 22, brunoRides 23,
      annaRides (utf8 "dario") false 27, brunoRides 28] ++
    (List.range' 32 17).map brunoRides

/-- From her side one comes where the other goes four times, and from his side twice. -/
theorem same_person_one_sided :
    @Memory.samePerson utc asTheyCome (({} : Memory).tellAll Memory.forget turnsTaken) (utf8 "anna") (utf8 "bruno") 40000 =
        true ∧
      @Memory.samePerson utc asTheyCome (({} : Memory).tellAll Memory.forget turnsTaken) (utf8 "bruno") (utf8 "anna")
          40000 = false := by
  decide +kernel

/-- The presents again, and the two in turns without ever sharing ten minutes. -/
def turnsKept : List Told :=
  (List.range' 1 3).map (annaRides (utf8 "bruno") true) ++ (List.range' 4 11).map (annaRides (utf8 "dario") false) ++
    [brunoRides 15, annaRides (utf8 "dario") false 16, brunoRides 17, annaRides (utf8 "dario") false 18, brunoRides 19] ++
    (List.range' 32 17).map brunoRides

/-- With the turns seen from either side the two are one person everywhere; with those seen from hers alone, not. -/
theorem same_person_iff_turns :
    let kept := ({} : Memory).tellAll Memory.forget turnsKept
    let taken := ({} : Memory).tellAll Memory.forget turnsTaken
    (@Memory.samePerson utc asTheyCome kept (utf8 "anna") (utf8 "bruno") 40000 =
          @Memory.samePerson utc asTheyCome kept (utf8 "bruno") (utf8 "anna") 40000 ∧
        (@Memory.samePerson utc asTheyCome kept (utf8 "anna") (utf8 "bruno") 40000 = true ↔
          @Memory.Lists utc asTheyCome kept 40000 (utf8 "anna") (utf8 "bruno"))) ∧
      @Memory.samePerson utc asTheyCome kept (utf8 "anna") (utf8 "bruno") 40000 = true ∧
      ¬ (@Memory.samePerson utc asTheyCome taken (utf8 "anna") (utf8 "bruno") 40000 =
          @Memory.samePerson utc asTheyCome taken (utf8 "bruno") (utf8 "anna") 40000 ∧
        (@Memory.samePerson utc asTheyCome taken (utf8 "anna") (utf8 "bruno") 40000 = true ↔
          @Memory.Lists utc asTheyCome taken 40000 (utf8 "anna") (utf8 "bruno"))) := by
  intro kept taken
  have hne : utf8 "anna" ≠ utf8 "bruno" := by decide +kernel
  refine ⟨(@same_person_iff utc asTheyCome kept 40000 _ _ hne).mpr (by decide +kernel), by decide +kernel, ?_⟩
  exact mt (@same_person_iff utc asTheyCome taken 40000 _ _ hne).mp (by decide +kernel)

end NorelecBot.Watch
