import NorelecBot.Watch.Report

/-! # The groups are the components

What the roots stand for while the pairs are united, gathered and listed, and what
that makes of the groups.
-/

namespace NorelecBot.Watch
open Lib Lib.UnionFind

def ends (pairs : List Pair) : List (ℕ × ℕ) := pairs.map fun pair => (pair.left, pair.right)

def unitePairs (parents : List ℕ) (pairs : List Pair) : List ℕ :=
  pairs.foldl (fun parents pair => unite parents pair.left pair.right) parents

/-- Two different places of so many, the first below the second. -/
def Pair.Inside (count : ℕ) (pair : Pair) : Prop := pair.left < pair.right ∧ pair.right < count

instance (count : ℕ) (pair : Pair) : Decidable (pair.Inside count) := inferInstanceAs (Decidable (_ ∧ _))

def Touched (pairs : List Pair) (place : ℕ) : Prop := ∃ pair ∈ pairs, place = pair.left ∨ place = pair.right

theorem unitePairs_spec {parents : List ℕ} {rep : ℕ → ℕ} (h : Forest parents rep) {pairs : List Pair}
    (hpairs : ∀ pair ∈ pairs, pair.Inside parents.length) :
    Forest (unitePairs parents pairs) (joinedAll rep (ends pairs)) ∧
      (unitePairs parents pairs).length = parents.length := by
  induction pairs generalizing parents rep with
  | nil => exact ⟨h, rfl⟩
  | cons pair pairs ih =>
    have hpair := hpairs pair List.mem_cons_self
    obtain ⟨hforest, hlength⟩ := h.unite_spec (lt_trans hpair.1 hpair.2) hpair.2
    obtain ⟨hrest, hsame⟩ := ih hforest fun other hother => by
      rw [hlength]
      exact hpairs other (List.mem_cons_of_mem pair hother)
    exact ⟨hrest, hsame.trans hlength⟩

section
variable {rep : ℕ → ℕ} {count : ℕ}

def gatheredUnder (rep : ℕ → ℕ) (group : ℕ) (pairs : List Pair) : List ℕ :=
  (pairs.filter fun pair => rep pair.left = group).flatMap fun pair => [pair.left, pair.right]

theorem mem_gatheredUnder {group place : ℕ} {pairs : List Pair} :
    place ∈ gatheredUnder rep group pairs ↔
      ∃ pair ∈ pairs, rep pair.left = group ∧ (place = pair.left ∨ place = pair.right) := by
  simp [gatheredUnder, and_assoc]

theorem gatherPair_spec {gathered : KeyMap ℕ (List ℕ) × List ℕ} (h : Forest gathered.2 rep) {pair : Pair}
    (hpair : pair.left < gathered.2.length) :
    Forest (gatherPair gathered pair).2 rep ∧ (gatherPair gathered pair).2.length = gathered.2.length ∧
      ∀ group, (gatherPair gathered pair).1.find group =
        if group = rep pair.left then some ((gathered.1.find group).getD [] ++ [pair.left, pair.right])
        else gathered.1.find group := by
  obtain ⟨hroot, hforest, hlength⟩ := h.root_spec hpair
  obtain ⟨hroot', hforest', hlength'⟩ := hforest.root_spec (hlength ▸ hpair)
  rw [gatherPair]
  dsimp only
  refine ⟨hforest', hlength'.trans hlength, fun group => ?_⟩
  rw [hroot', hroot, KeyMap.find_alter, KeyMap.find_alter, KeyMap.find_alter]
  by_cases hgroup : group = rep pair.left
  · rw [if_pos hgroup, if_pos hgroup, if_pos rfl, hgroup, Option.getD_some, List.append_assoc]
    rfl
  · rw [if_neg hgroup, if_neg hgroup, if_neg hgroup]

theorem gather_spec {parents : List ℕ} (h : Forest parents rep) {pairs : List Pair}
    (hpairs : ∀ pair ∈ pairs, pair.left < parents.length) :
    Forest (gather parents pairs).2 rep ∧ (gather parents pairs).2.length = parents.length ∧
      ∀ group, (gather parents pairs).1.find group =
        if gatheredUnder rep group pairs = [] then none else some (gatheredUnder rep group pairs) := by
  induction pairs using List.reverseRecOn with
  | nil => exact ⟨h, rfl, fun group => rfl⟩
  | append_singleton pairs pair ih =>
    obtain ⟨hforest, hlength, hfind⟩ := ih fun other hother => hpairs other (List.mem_append_left [pair] hother)
    have hpair := hpairs pair (by simp)
    obtain ⟨hforest', hlength', hfind'⟩ := @gatherPair_spec rep (gather parents pairs) hforest pair (hlength ▸ hpair)
    have hfold : gather parents (pairs ++ [pair]) = gatherPair (gather parents pairs) pair := by
      rw [gather, List.foldl_append]
      rfl
    rw [hfold]
    refine ⟨hforest', hlength'.trans hlength, fun group => ?_⟩
    have hmore : gatheredUnder rep group (pairs ++ [pair]) =
        gatheredUnder rep group pairs ++ if group = rep pair.left then [pair.left, pair.right] else [] := by
      by_cases hgroup : group = rep pair.left
      · simp [gatheredUnder, hgroup]
      · simp [gatheredUnder, hgroup, Ne.symm hgroup]
    rw [hfind', hfind, hmore]
    by_cases hgroup : group = rep pair.left
    · have hsome : gatheredUnder rep group pairs ++ [pair.left, pair.right] ≠ [] := by simp
      rw [if_pos hgroup, if_pos hgroup, if_neg hsome]
      by_cases hnone : gatheredUnder rep group pairs = []
      · rw [if_pos hnone, hnone]
        rfl
      · rw [if_neg hnone]
        rfl
    · rw [if_neg hgroup, if_neg hgroup, List.append_nil]

theorem pairsUnder_spec {parents : List ℕ} (h : Forest parents rep) (group : ℕ) {pairs : List Pair}
    (hpairs : ∀ pair ∈ pairs, pair.left < parents.length) :
    (pairsUnder group parents pairs).1 = pairs.filter (fun pair => rep pair.left = group) ∧
      Forest (pairsUnder group parents pairs).2 rep ∧
      (pairsUnder group parents pairs).2.length = parents.length := by
  induction pairs generalizing parents with
  | nil => exact ⟨rfl, h, rfl⟩
  | cons pair pairs ih =>
    obtain ⟨hroot, hforest, hlength⟩ := h.root_spec (hpairs pair List.mem_cons_self)
    obtain ⟨hunder, hforest', hlength'⟩ := ih hforest fun other hother => by
      rw [hlength]
      exact hpairs other (List.mem_cons_of_mem pair hother)
    rw [pairsUnder]
    dsimp only
    rw [hunder, hroot]
    refine ⟨?_, hforest', hlength'.trans hlength⟩
    by_cases hgroup : rep pair.left = group
    · rw [if_pos hgroup, List.filter_cons_of_pos (by simpa using hgroup)]
    · rw [if_neg hgroup, List.filter_cons_of_neg (by simpa using hgroup)]

theorem listGroups_spec {parents : List ℕ} (h : Forest parents rep) {pairs : List Pair}
    (hpairs : ∀ pair ∈ pairs, pair.left < parents.length) (groups : List (ℕ × List ℕ)) :
    listGroups pairs parents groups = groups.map fun entry =>
      ⟨unique (entry.2.insertionSort (· ≤ ·)), pairs.filter fun pair => rep pair.left = entry.1⟩ := by
  induction groups generalizing parents with
  | nil => rfl
  | cons entry groups ih =>
    obtain ⟨hunder, hforest, hlength⟩ := pairsUnder_spec h entry.1 hpairs
    rw [listGroups, List.map_cons]
    dsimp only
    rw [hunder, ih hforest fun pair hpair => by
      rw [hlength]
      exact hpairs pair hpair]

end

theorem mem_unique {members : List ℕ} {place : ℕ} : place ∈ unique members ↔ place ∈ members := by
  fun_induction unique members with
  | case1 second members ih =>
    rw [ih]
    simp
  | case2 first second members hne ih =>
    rw [List.mem_cons, ih]
    simp
  | case3 members => rfl

theorem unique_sorted {members : List ℕ} (h : members.Pairwise (· ≤ ·)) : (unique members).Pairwise (· < ·) := by
  fun_induction unique members with
  | case1 second members ih => exact ih (List.pairwise_cons.mp h).2
  | case2 first second members hne ih =>
    have hrest := (List.pairwise_cons.mp h).2
    rw [List.pairwise_cons]
    refine ⟨fun place hplace => ?_, ih hrest⟩
    have hfirst : first ≤ second := (List.pairwise_cons.mp h).1 second List.mem_cons_self
    have hsecond : second ≤ place := by
      rcases List.mem_cons.mp (mem_unique.mp hplace) with rfl | hin
      · exact le_rfl
      · exact (List.pairwise_cons.mp hrest).1 place hin
    omega
  | case3 members hshort =>
    cases members with
    | nil => exact List.Pairwise.nil
    | cons first members =>
      cases members with
      | nil => exact List.pairwise_singleton _ _
      | cons second members => exact absurd rfl (hshort first second members)

def sortedMembers (rep : ℕ → ℕ) (group : ℕ) (pairs : List Pair) : List ℕ :=
  unique ((gatheredUnder rep group pairs).insertionSort (· ≤ ·))

theorem mem_sortedMembers {rep : ℕ → ℕ} {group place : ℕ} {pairs : List Pair} :
    place ∈ sortedMembers rep group pairs ↔
      ∃ pair ∈ pairs, rep pair.left = group ∧ (place = pair.left ∨ place = pair.right) := by
  rw [sortedMembers, mem_unique, List.mem_insertionSort, mem_gatheredUnder]

theorem sortedMembers_sorted (rep : ℕ → ℕ) (group : ℕ) (pairs : List Pair) :
    (sortedMembers rep group pairs).Pairwise (· < ·) :=
  unique_sorted (List.pairwise_insertionSort _ _)

theorem Touched.of_connected {pairs : List Pair} {i j : ℕ} (h : Connected (ends pairs) i j) :
    i = j ∨ (Touched pairs i ∧ Touched pairs j) := by
  induction h with
  | rel i j hmem =>
    obtain ⟨pair, hpair, heq⟩ := List.mem_map.mp hmem
    cases heq
    exact .inr ⟨⟨pair, hpair, .inl rfl⟩, ⟨pair, hpair, .inr rfl⟩⟩
  | refl i => exact .inl rfl
  | symm i j _ ih =>
    rcases ih with rfl | hboth
    · exact .inl rfl
    · exact .inr hboth.symm
  | trans i j k _ _ ih ih' =>
    rcases ih with rfl | hboth
    · exact ih'
    · rcases ih' with rfl | hboth'
      · exact .inr hboth
      · exact .inr ⟨hboth.1, hboth'.2⟩

/-- The members of a group are the places of pairs that have its root. -/
theorem mem_sortedMembers_iff {pairs : List Pair} {group place : ℕ} :
    place ∈ sortedMembers (joinedAll id (ends pairs)) group pairs ↔
      Touched pairs place ∧ joinedAll id (ends pairs) place = group := by
  have hright : ∀ pair ∈ pairs, joinedAll id (ends pairs) pair.right = joinedAll id (ends pairs) pair.left := by
    intro pair hpair
    rw [eq_comm, joinedAll_iff]
    exact .rel _ _ (List.mem_map.mpr ⟨pair, hpair, rfl⟩)
  rw [mem_sortedMembers]
  constructor
  · rintro ⟨pair, hpair, hgroup, hplace⟩
    refine ⟨⟨pair, hpair, hplace⟩, ?_⟩
    rcases hplace with rfl | rfl
    · exact hgroup
    · rw [hright pair hpair, hgroup]
  · rintro ⟨⟨pair, hpair, hplace⟩, hgroup⟩
    refine ⟨pair, hpair, ?_, hplace⟩
    rcases hplace with rfl | rfl
    · exact hgroup
    · rw [← hright pair hpair, hgroup]

theorem mem_group_iff {pairs : List Pair} {group member place : ℕ}
    (hmember : member ∈ sortedMembers (joinedAll id (ends pairs)) group pairs) :
    place ∈ sortedMembers (joinedAll id (ends pairs)) group pairs ↔ Connected (ends pairs) member place := by
  rw [mem_sortedMembers_iff] at hmember ⊢
  rw [← joinedAll_iff, hmember.2]
  constructor
  · rintro ⟨-, hplace⟩
    exact hplace.symm
  · intro hplace
    refine ⟨?_, hplace.symm⟩
    have hconnected : Connected (ends pairs) member place := by
      rw [← joinedAll_iff, hmember.2, hplace]
    rcases Touched.of_connected hconnected with rfl | hboth
    · exact hmember.1
    · exact hboth.2

theorem groupsFrom_eq {count : ℕ} {pairs : List Pair} (hpairs : ∀ pair ∈ pairs, pair.Inside count) :
    groupsFrom (unitePairs (List.range count) pairs) pairs =
      (gather (unitePairs (List.range count) pairs) pairs).1.entries.map fun entry =>
        ⟨sortedMembers (joinedAll id (ends pairs)) entry.1 pairs,
          pairs.filter fun pair => joinedAll id (ends pairs) pair.left = entry.1⟩ := by
  obtain ⟨hforest, hlength⟩ := @unitePairs_spec _ _ (forest_range count) pairs (by simpa using hpairs)
  rw [List.length_range] at hlength
  have hleft : ∀ pair ∈ pairs, pair.left < (unitePairs (List.range count) pairs).length := by
    intro pair hpair
    rw [hlength]
    exact lt_trans (hpairs pair hpair).1 (hpairs pair hpair).2
  obtain ⟨hgathered, hsame, hfind⟩ := gather_spec hforest hleft
  rw [groupsFrom]
  dsimp only
  rw [listGroups_spec hgathered (by rwa [hsame])]
  apply List.map_congr_left
  intro entry hentry
  have hentry' := KeyMap.find_eq_some.mpr (show (entry.1, entry.2) ∈ _ from hentry)
  rw [hfind] at hentry'
  by_cases hnone : gatheredUnder (joinedAll id (ends pairs)) entry.1 pairs = []
  · rw [if_pos hnone] at hentry'
    cases hentry'
  · rw [if_neg hnone, Option.some.injEq] at hentry'
    rw [sortedMembers, hentry']

/-- The roots that have a group are those of the pairs. -/
theorem mem_gathered_keys {count : ℕ} {pairs : List Pair} (hpairs : ∀ pair ∈ pairs, pair.Inside count) {group : ℕ} :
    group ∈ (gather (unitePairs (List.range count) pairs) pairs).1.keys ↔
      ∃ place, place ∈ sortedMembers (joinedAll id (ends pairs)) group pairs := by
  obtain ⟨hforest, hlength⟩ := @unitePairs_spec _ _ (forest_range count) pairs (by simpa using hpairs)
  rw [List.length_range] at hlength
  obtain ⟨-, -, hfind⟩ := gather_spec hforest fun pair hpair => by
    rw [hlength]
    exact lt_trans (hpairs pair hpair).1 (hpairs pair hpair).2
  rw [KeyMap.mem_keys]
  simp only [hfind, mem_sortedMembers, ← mem_gatheredUnder]
  by_cases hnone : gatheredUnder (joinedAll id (ends pairs)) group pairs = []
  · simp [hnone]
  · rw [if_neg hnone]
    exact ⟨fun _ => List.exists_mem_of_ne_nil _ hnone, fun _ => ⟨_, rfl⟩⟩

/-- One entry for each root that has a group. -/
theorem filter_entries_of_mem {α : Type*} (m : KeyMap ℕ α) {group : ℕ} (h : group ∈ m.keys) :
    (m.entries.filter fun entry => entry.1 = group).length = 1 := by
  have hcount : (m.entries.filter fun entry => entry.1 = group).length = m.keys.count group := by
    rw [KeyMap.keys, List.count_eq_countP, List.countP_map, List.countP_eq_length_filter]
    rfl
  rw [hcount]
  exact List.count_eq_one_of_mem m.nodup_keys h

theorem two_le_length {members : List ℕ} {one other : ℕ} (hone : one ∈ members) (hother : other ∈ members)
    (hne : one ≠ other) : 2 ≤ members.length := by
  have hsub : [one, other] ⊆ members := by simp [hone, hother]
  exact (List.subperm_of_subset (by simpa using hne) hsub).length_le

/-- However many lookups and unions came before, a root is found; and the groups of some pairs are their
components of two members at least, each once, with its members once each and its own pairs. -/
theorem groups_are_components {count : ℕ} {pairs : List Pair} (hpairs : ∀ pair ∈ pairs, pair.Inside count) :
    (∀ steps : List Step, (∀ step ∈ steps, step.Inside count) →
      (∃ rep, Forest (runAll (List.range count) steps) rep) ∧
      ∀ place < count,
        (∀ fuel, count ≤ fuel →
          rootWithin fuel (runAll (List.range count) steps) place = root (runAll (List.range count) steps) place) ∧
        parentAt (root (runAll (List.range count) steps) place).2 (root (runAll (List.range count) steps) place).1 =
          (root (runAll (List.range count) steps) place).1) ∧
    (∀ group ∈ groupsFrom (unitePairs (List.range count) pairs) pairs,
      2 ≤ group.members.length ∧ group.members.Pairwise (· < ·) ∧
      (∀ member ∈ group.members, ∀ place, place ∈ group.members ↔ Connected (ends pairs) member place) ∧
      group.pairs = pairs.filter fun pair => pair.left ∈ group.members) ∧
    ∀ place other, place ≠ other → Connected (ends pairs) place other →
      ((groupsFrom (unitePairs (List.range count) pairs) pairs).filter fun group => place ∈ group.members).length = 1 := by
  refine ⟨fun steps hsteps => ?_, fun group hgroup => ?_, fun place other hne hconnected => ?_⟩
  · obtain ⟨⟨rep, hforest⟩, hlength⟩ := @Forest.runAll _ _ (forest_range count) steps (by simpa using hsteps)
    rw [List.length_range] at hlength
    refine ⟨⟨rep, hforest⟩, fun place hplace => ?_⟩
    rw [← hlength] at hplace
    obtain ⟨hroot, hforest', -⟩ := hforest.root_spec hplace
    constructor
    · intro fuel hfuel
      rw [← hlength] at hfuel
      exact hforest.rootWithin_enough hplace hfuel
    · rw [hroot]
      exact hforest'.top place
  · rw [groupsFrom_eq hpairs] at hgroup
    obtain ⟨entry, hentry, rfl⟩ := List.mem_map.mp hgroup
    have hkey : entry.1 ∈ (gather (unitePairs (List.range count) pairs) pairs).1.keys :=
      List.mem_map.mpr ⟨entry, hentry, rfl⟩
    obtain ⟨member, hmember⟩ := (mem_gathered_keys hpairs).mp hkey
    obtain ⟨pair, hpair, hroot, -⟩ := mem_sortedMembers.mp hmember
    have hleft := mem_sortedMembers.mpr ⟨pair, hpair, hroot, .inl rfl⟩
    have hright := mem_sortedMembers.mpr ⟨pair, hpair, hroot, .inr rfl⟩
    refine ⟨two_le_length hleft hright (ne_of_lt (hpairs pair hpair).1), sortedMembers_sorted _ _ _,
      fun member hmember place => mem_group_iff hmember, ?_⟩
    apply List.filter_congr
    intro one hone
    rw [decide_eq_decide, mem_sortedMembers_iff]
    exact ⟨fun h => ⟨⟨one, hone, .inl rfl⟩, h⟩, And.right⟩
  · have htouched : Touched pairs place := by
      rcases Touched.of_connected hconnected with heq | hboth
      · exact absurd heq hne
      · exact hboth.1
    have hplace : place ∈ sortedMembers (joinedAll id (ends pairs)) (joinedAll id (ends pairs) place) pairs :=
      mem_sortedMembers_iff.mpr ⟨htouched, rfl⟩
    have hkey := (mem_gathered_keys hpairs).mpr ⟨place, hplace⟩
    rw [groupsFrom_eq hpairs, List.filter_map, List.length_map, ← filter_entries_of_mem _ hkey]
    congr 1
    apply List.filter_congr
    intro entry _
    simp only [Function.comp_apply, mem_sortedMembers_iff, htouched, true_and, eq_comm]

/-- Three accounts joined by two pairs, and two by one. -/
theorem groups_are_components_five :
    ((groupsFrom (unitePairs (List.range 5) [⟨0, 1, 40, []⟩, ⟨2, 4, 55, []⟩, ⟨1, 3, 60, []⟩])
      [⟨0, 1, 40, []⟩, ⟨2, 4, 55, []⟩, ⟨1, 3, 60, []⟩]).filter fun group => 0 ∈ group.members).length = 1 :=
  (@groups_are_components 5 [⟨0, 1, 40, []⟩, ⟨2, 4, 55, []⟩, ⟨1, 3, 60, []⟩]
    (by decide)).2.2 0 1 (by decide) (.rel _ _ (by decide))

section
variable (entries : List (Str × Traits)) (started : ℤ) (raiders : KeyMap Str ℕ) (name : Str → Str)

theorem mem_placesOf {count : ℕ} {place : ℕ × ℕ} : place ∈ placesOf count ↔ place.1 < place.2 ∧ place.2 < count := by
  simp only [placesOf, List.mem_flatMap, List.mem_range, List.mem_map, List.mem_range'_1]
  constructor
  · rintro ⟨left, hleft, right, hright, rfl⟩
    dsimp only
    omega
  · intro h
    exact ⟨place.1, by omega, place.2, by omega, rfl⟩

theorem pairAt_places {place : ℕ × ℕ} {pair : Pair} (h : pairAt entries started raiders name place = some pair) :
    pair.left = place.1 ∧ pair.right = place.2 := by
  simp only [pairAt, Option.bind_eq_bind, Option.bind_eq_some_iff] at h
  obtain ⟨one, -, other, -, hfound⟩ := h
  split at hfound
  · cases hfound
    exact ⟨rfl, rfl⟩
  · cases hfound

/-- The scan unites as it finds, which is the same as uniting what it found. -/
theorem scan_eq :
    scan entries started raiders name =
      (unitePairs (List.range entries.length)
        ((placesOf entries.length).filterMap (pairAt entries started raiders name)),
        (placesOf entries.length).filterMap (pairAt entries started raiders name)) := by
  have hfold : ∀ (places : List (ℕ × ℕ)) (parents : List ℕ) (pairs : List Pair),
      places.foldl (scanPlace entries started raiders name) (parents, pairs) =
        (unitePairs parents (places.filterMap (pairAt entries started raiders name)),
          pairs ++ places.filterMap (pairAt entries started raiders name)) := by
    intro places
    induction places with
    | nil =>
      intro parents pairs
      simp [unitePairs]
    | cons place places ih =>
      intro parents pairs
      rw [List.foldl_cons]
      cases hpair : pairAt entries started raiders name place with
      | none =>
        rw [List.filterMap_cons_none hpair]
        simp only [scanPlace, hpair]
        exact ih parents pairs
      | some pair =>
        rw [List.filterMap_cons_some hpair]
        simp only [scanPlace, hpair]
        rw [ih, List.append_assoc]
        rfl
  rw [scan, hfold]
  rfl

theorem scan_inside : ∀ pair ∈ (scan entries started raiders name).2, pair.Inside entries.length := by
  intro pair hpair
  rw [scan_eq] at hpair
  obtain ⟨place, hplace, hfound⟩ := List.mem_filterMap.mp hpair
  obtain ⟨hleft, hright⟩ := pairAt_places entries started raiders name hfound
  rw [Pair.Inside, hleft, hright]
  exact mem_placesOf.mp hplace

end

/-- The groups the report lists are those of the pairs it lists. -/
theorem Memory.groups_eq [Clock] [Arranged] (memory : Memory) (now : ℤ) (name : Str → Str) :
    memory.groups now name =
      groupsFrom (unitePairs (List.range (judge memory.players memory.identities now name).traits.entries.length)
        (memory.scanned now name).2) (memory.scanned now name).2 := by
  rw [Memory.groups, Memory.scanned, scan_eq]

end NorelecBot.Watch
