import NorelecBot.EditInvariants

/-! # What edits keep of the two places

With a codec that gives back what it stored, the slots of a place are those last
hung there. The census moves by what the receipt says, nobody gets to carry too
much, and every child stays in a slot of its own.
-/

namespace NorelecBot
open Lib

section
variable {P : Str → Prop} {slots : List Str}

theorem allOf_nil : AllOf P [] := fun _ h => by cases h

theorem AllOf.sublist {fewer : List Str} (h : AllOf P slots) (hsub : fewer.Sublist slots) :
    AllOf P fewer := fun emoji hmem => h emoji (hsub.subset hmem)

theorem AllOf.trimSlots (h : AllOf P slots) : AllOf P (trimSlots slots) := h.sublist (trimSlots_sublist slots)

theorem AllOf.set (h : AllOf P slots) (slot : ℕ) {emoji : Str} (hemoji : emoji ≠ [] → P emoji) :
    AllOf P (slots.set slot emoji) := by
  intro other hmem hne
  rcases List.mem_or_eq_of_mem_set hmem with hold | rfl
  · exact h other hold hne
  · exact hemoji hne

theorem AllOf.cleared (h : AllOf P slots) (slot : ℕ) : AllOf P (slots.set slot []) :=
  h.set slot fun hne => absurd rfl hne

theorem AllOf.fillSlot (h : AllOf P slots) (slot : ℕ) {emoji : Str} (hemoji : emoji ≠ [] → P emoji) :
    AllOf P (fillSlot slots slot emoji) := by
  intro other hmem hne
  rcases mem_fillSlot hmem with hold | rfl | rfl
  · exact h other hold hne
  · exact absurd rfl hne
  · exact hemoji hne

theorem AllOf.slotAt {slot : ℕ} (h : AllOf P slots) (hne : slotAt slots slot ≠ []) :
    P (slotAt slots slot) := h _ (slotAt_mem hne) hne

theorem AllOf.swapSlots (h : AllOf P slots) (source target : ℕ) :
    AllOf P (swapSlots slots source target) := by
  have hpad : AllOf P (padSlots (target + 1) slots) := fun other hmem hne =>
    (mem_padSlots hmem).elim (fun hold => h other hold hne) fun hnil => absurd hnil hne
  exact (hpad.set _ h.slotAt).set _ h.slotAt

end

theorem childEmoji_mem (male : Bool) : childEmoji male 0 ∈ ageEmoji male := by cases male <;> decide

theorem ageEmoji_ne_nil {male : Bool} {emoji : Str} (h : emoji ∈ ageEmoji male) : emoji ≠ [] := by
  rintro rfl
  revert h
  cases male <;> decide

theorem find_balloons (players : List Str) (place : Authors) (other : Str) :
    (players.foldl balloonOn place).find other =
      if other ∈ players then some Power.balloon.emoji else place.find other := by
  induction players generalizing place with
  | nil => simp
  | cons player players ih =>
    rw [List.foldl_cons, ih, balloonOn, OrderedMap.find_set]
    by_cases hin : other ∈ players
    · simp [hin]
    · by_cases hp : other = player <;> simp [hin, hp]

section
variable [SlotCodec] {P : Str → Prop}

section
variable (law : Lawful P) (state : ConquisterState) (player : Str) {slots : List Str}
include law

theorem slotsOf_hang_lawful (h : AllOf P slots) (other : Str) :
    slotsOf (hang state player slots) other =
      if other = player then trimSlots slots else slotsOf state other := by
  rw [slotsOf_hang, law.back slots h]

theorem gearOf_hangGear_lawful (h : AllOf P slots) (other : Str) :
    gearOf (hangGear state player slots) other =
      if other = player then trimSlots slots else gearOf state other := by
  rw [gearOf_hangGear, law.back slots h]

theorem slotsOf_unhouse (other : Str) :
    slotsOf { state with furniture := state.furniture.erase player } other =
      if other = player then [] else slotsOf state other := by
  rw [slotsOf, slotsOf, storedIn, storedIn, OrderedMap.find_erase]
  split
  · exact law.nothing
  · rfl

theorem gearOf_ungear (other : Str) :
    gearOf { state with equipped := state.equipped.erase player } other =
      if other = player then [] else gearOf state other := by
  rw [gearOf, gearOf, storedIn, storedIn, OrderedMap.find_erase]
  split
  · exact law.nothing
  · rfl

theorem gearOf_balloonOn (other : Str) :
    gearOf { state with equipped := balloonOn state.equipped player } other =
      if other = player then [Power.balloon.emoji] else gearOf state other := by
  rw [gearOf, gearOf, storedIn, storedIn, balloonOn, OrderedMap.find_set]
  split
  · exact law.balloon
  · rfl

end

theorem slotsOf_startOver (law : Lawful P) (s : ConquisterState) (player : Str) :
    slotsOf (startOver s) player = [] := law.nothing

theorem gearOf_startOver (law : Lawful P) (s : ConquisterState) (player : Str) :
    gearOf (startOver s) player = [] ∨ gearOf (startOver s) player = [Power.balloon.emoji] := by
  rw [gearOf, startOver, storedIn, find_balloons]
  split
  · exact .inr law.balloon
  · exact .inl law.nothing

theorem kept_of {s t : ConquisterState} (h : Kept P s) (hhouse : t.furniture = s.furniture)
    (hgear : t.equipped = s.equipped) (hrides : t.raids = s.raids) : Kept P t := by
  refine ⟨fun player => ?_, fun player => ?_, hrides ▸ h.rides⟩
  · have hsame : slotsOf t player = slotsOf s player := by rw [slotsOf, slotsOf, hhouse]
    exact hsame ▸ h.house player
  · have hsame : gearOf t player = gearOf s player := by rw [gearOf, gearOf, hgear]
    exact hsame ▸ h.gear player

theorem kept_hang (law : Lawful P) {s : ConquisterState} (h : Kept P s) (player : Str) {slots : List Str}
    (hslots : AllOf P slots) : Kept P (hang s player slots) := by
  refine ⟨fun other => ?_, h.gear, h.rides⟩
  rw [slotsOf_hang_lawful law s player hslots]
  split
  · exact hslots.trimSlots
  · exact h.house other

theorem kept_hangGear (law : Lawful P) {s : ConquisterState} (h : Kept P s) (player : Str)
    {slots : List Str} (hslots : AllOf P slots) : Kept P (hangGear s player slots) := by
  refine ⟨h.house, fun other => ?_, h.rides⟩
  rw [gearOf_hangGear_lawful law s player hslots]
  split
  · exact hslots.trimSlots
  · exact h.gear other

theorem allOf_balloon (law : Lawful P) : AllOf P [Power.balloon.emoji] := fun _ hmem _ =>
  List.mem_singleton.mp hmem ▸ law.ours

theorem Edit.kept (law : Lawful P) {s t : ConquisterState} {f : Receipt} (h : Edit s f t)
    (hf : f.TypedIn P) (hs : Kept P s) : Kept P t := by
  cases h with
  | quiet same => exact kept_of hs same.furniture same.equipped same.raids
  | house player slots typed _ comesFrom => exact kept_hang law hs player (comesFrom P hs hf)
  | gear player slots typed _ comesFrom => exact kept_hangGear law hs player (comesFrom P hs hf)
  | unhouse player =>
    refine ⟨fun other => ?_, hs.gear, hs.rides⟩
    rw [slotsOf_unhouse law]
    split
    · exact allOf_nil
    · exact hs.house other
  | ungear player =>
    refine ⟨hs.house, fun other => ?_, hs.rides⟩
    rw [gearOf_ungear law]
    split
    · exact allOf_nil
    · exact hs.gear other
  | balloon player =>
    refine ⟨hs.house, fun other => ?_, hs.rides⟩
    rw [gearOf_balloonOn law]
    split
    · exact allOf_balloon law
    · exact hs.gear other
  | newborn mother place male born =>
    have hslots : AllOf P (fillSlot (slotsOf s mother) place (childEmoji male 0)) :=
      (hs.house mother).fillSlot _ fun _ => law.faces male _ (childEmoji_mem male)
    exact kept_of (kept_hang law hs mother hslots) rfl rfl rfl
  | grows child looks mem filled age =>
    exact kept_hang law hs child.owner ((hs.house child.owner).set _ fun _ => law.faces child.male _ age)
  | gone before after child =>
    have hslots := (hs.house child.owner).cleared child.slot.toNat
    exact kept_of (kept_hang law hs child.owner hslots) rfl rfl rfl
  | moves player source target =>
    exact kept_of (kept_hang law hs player ((hs.house player).swapSlots source target)) rfl rfl rfl
  | setOff raid =>
    refine ⟨hs.house, hs.gear, fun other hother hne => ?_⟩
    rcases List.mem_append.mp hother with hold | hnew
    · exact hs.rides other hold hne
    · rw [List.mem_singleton.mp hnew] at hne ⊢
      exact hf raid.giftEmoji (Multiset.mem_singleton_self _) hne
  | rides raids same =>
    refine ⟨hs.house, hs.gear, fun raid' hraid hne => ?_⟩
    obtain ⟨raid, hmem, hsame⟩ := rewritten_mem same hraid
    rcases hsame.emoji with heq | hnil
    · exact heq ▸ hs.rides raid hmem (heq ▸ hne)
    · exact absurd hnil hne
  | ridesEnd raids fewer =>
    exact ⟨hs.house, hs.gear, fun raid hraid => hs.rides raid (fewer.subset hraid)⟩
  | startsOver =>
    refine ⟨fun player => ?_, fun player => ?_, fun raid hraid => by cases hraid⟩
    · rw [slotsOf_startOver law]
      exact allOf_nil
    · rcases gearOf_startOver law s player with hnil | hballoon
      · rw [hnil]
        exact allOf_nil
      · rw [hballoon]
        exact allOf_balloon law
  | _ => exact kept_of hs rfl rfl rfl

theorem Edits.kept (law : Lawful P) {s t : ConquisterState} {f : Receipt} (h : Edits s f t)
    (hf : f.TypedIn P) (hs : Kept P s) : Kept P t :=
  h.invariant_of Receipt.typedIn_add (fun _ _ _ => Edit.kept law) hf hs

theorem gearFits_of {s t : ConquisterState} (h : GearFits s) (hgear : t.equipped = s.equipped) :
    GearFits t := fun player => by
  have hsame : gearOf t player = gearOf s player := by rw [gearOf, gearOf, hgear]
  exact hsame ▸ h player

theorem Edit.gearFits (law : Lawful P) {s t : ConquisterState} {f : Receipt} (h : Edit s f t)
    (hf : f.TypedIn P) (hs : Kept P s) (hfits : GearFits s) : GearFits t := by
  cases h with
  | quiet same => exact gearFits_of hfits same.equipped
  | gear player slots typed fits comesFrom =>
    intro other
    rw [gearOf_hangGear_lawful law s player (comesFrom P hs hf)]
    split
    · exact (trimSlots_length_le slots).trans (fits (hfits player))
    · exact hfits other
  | ungear player =>
    intro other
    rw [gearOf_ungear law]
    split
    · exact Nat.zero_le _
    · exact hfits other
  | balloon player =>
    intro other
    rw [gearOf_balloonOn law]
    split
    · exact Nat.le_of_ble_eq_true rfl
    · exact hfits other
  | startsOver =>
    intro player
    rcases gearOf_startOver law s player with hnil | hballoon
    · rw [hnil]
      exact Nat.zero_le _
    · rw [hballoon]
      exact Nat.le_of_ble_eq_true rfl
  | _ => exact gearFits_of hfits rfl

/-- What every run keeps of the two places. -/
structure InPlace (P : Str → Prop) (state : ConquisterState) : Prop where
  kept : Kept P state
  fits : GearFits state

theorem Edits.inPlace (law : Lawful P) {s t : ConquisterState} {f : Receipt} (h : Edits s f t)
    (hf : f.TypedIn P) (hs : InPlace P s) : InPlace P t :=
  h.invariant_of Receipt.typedIn_add (fun _ _ _ hstep hstep_typed hmid =>
    ⟨hstep.kept law hstep_typed hmid.kept, hstep.gearFits law hstep_typed hmid.kept hmid.fits⟩) hf hs

section
variable (law : Lawful P) (place : Authors) (player : Str)
include law

theorem measureAt_shelf : place.measureAt (fun stored => shelf (SlotCodec.slots stored)) player =
    shelf (SlotCodec.slots (storedIn place player)) := by
  rw [OrderedMap.measureAt, storedIn]
  cases place.find player with
  | none => rw [Option.getD_none, law.nothing]; rfl
  | some stored => rfl

theorem keptEmoji_set (stored : Str) : keptEmoji (place.set player stored) =
    keptEmoji place + shelf (SlotCodec.slots stored) - shelf (SlotCodec.slots (storedIn place player)) := by
  rw [eq_sub_iff_add_eq, ← measureAt_shelf law place player]
  exact place.total_set _ player stored

theorem keptEmoji_erase : keptEmoji (place.erase player) =
    keptEmoji place - shelf (SlotCodec.slots (storedIn place player)) := by
  rw [eq_sub_iff_add_eq, ← measureAt_shelf law place player]
  exact place.total_erase _ player

theorem keptEmoji_hangIn {slots : List Str} (h : AllOf P slots) : keptEmoji (hangIn place player slots) =
    keptEmoji place + shelf slots - shelf (SlotCodec.slots (storedIn place player)) := by
  rw [hangIn, ← shelf_trimSlots slots, ← law.back slots h]
  split
  · rename_i hempty
    rw [keptEmoji_erase law, hempty, law.nothing, shelf_nil, add_zero]
  · exact keptEmoji_set law place player _

end

theorem census_hang (law : Lawful P) (s : ConquisterState) (player : Str) {slots : List Str}
    (h : AllOf P slots) :
    census (hang s player slots) = census s + (shelf slots - shelf (slotsOf s player)) := by
  have hplace := keptEmoji_hangIn law s.furniture player h
  rw [census, census]
  change keptEmoji (hangIn s.furniture player slots) + keptEmoji s.equipped + emojiRiding s.raids = _
  rw [hplace, slotsOf]
  abel

theorem census_hangGear (law : Lawful P) (s : ConquisterState) (player : Str) {slots : List Str}
    (h : AllOf P slots) :
    census (hangGear s player slots) = census s + (shelf slots - shelf (gearOf s player)) := by
  have hplace := keptEmoji_hangIn law s.equipped player h
  rw [census, census]
  change keptEmoji s.furniture + keptEmoji (hangIn s.equipped player slots) + emojiRiding s.raids = _
  rw [hplace, gearOf]
  abel

omit [SlotCodec] in
@[simp] theorem emojiRiding_append (before after : List Raid) :
    emojiRiding (before ++ after) = emojiRiding before + emojiRiding after := by
  simp [emojiRiding]

omit [SlotCodec] in
@[simp] theorem emojiRiding_cons (raid : Raid) (raids : List Raid) :
    emojiRiding (raid :: raids) = unit raid.giftEmoji + emojiRiding raids := by
  simp [emojiRiding]

omit [SlotCodec] in
@[simp] theorem emojiRiding_nil : emojiRiding [] = 0 := rfl

omit [SlotCodec] in
theorem shelf_swapSlots {slots : List Str} {source : ℕ} (target : ℕ) (h : slotAt slots source ≠ []) :
    shelf (swapSlots slots source target) = shelf slots := by
  have hsource := lt_length_of_slotAt_ne h
  have hpad : (padSlots (target + 1) slots).length = max slots.length (target + 1) := padSlots_length _ _
  have hfirst : source < (padSlots (target + 1) slots).length := by omega
  have hsecond : target < ((padSlots (target + 1) slots).set source (slotAt slots target)).length := by
    rw [List.length_set]
    omega
  rw [swapSlots, shelf_set hsecond, shelf_set hfirst, slotAt_set, slotAt_padSlots, slotAt_padSlots,
    shelf, shelfSum_padSlots unit_nil]
  split
  · rename_i hsame
    rw [hsame.1, shelf]
    abel
  · rw [shelf]
    abel

theorem keptEmoji_balloons (law : Lawful P) {players : List Str} (hnodup : players.Nodup)
    (place : Authors) (hnew : ∀ player ∈ players, place.find player = none) :
    keptEmoji (players.foldl balloonOn place) =
      keptEmoji place + players.length • unit Power.balloon.emoji := by
  induction players generalizing place with
  | nil => simp
  | cons player players ih =>
    rw [List.nodup_cons] at hnodup
    have hnone : storedIn place player = [] := by
      rw [storedIn, hnew player List.mem_cons_self, Option.getD_none]
    have hnext : ∀ other ∈ players, (balloonOn place player).find other = none := by
      intro other hother
      rw [balloonOn, OrderedMap.find_set_of_ne place _ (show other ≠ player from fun heq => hnodup.1 (heq ▸ hother))]
      exact hnew other (List.mem_cons_of_mem _ hother)
    rw [List.foldl_cons, ih hnodup.2 _ hnext, balloonOn, keptEmoji_set law, hnone, law.balloon, law.nothing,
      shelf_nil, sub_zero, List.length_cons, succ_nsmul', shelf, shelfSum_cons, shelfSum_nil, add_zero,
      add_assoc]

omit [SlotCodec] in
theorem firstOf_nodup (players : List Str) : (firstOf players).Nodup := by
  have hfold : ∀ known : List Str, known.Nodup → (players.foldl
      (fun known player => if player ∈ known then known else known ++ [player]) known).Nodup := by
    induction players with
    | nil => exact fun known h => h
    | cons player players ih =>
      intro known h
      rw [List.foldl_cons]
      refine ih _ ?_
      split
      · exact h
      · rename_i hnew
        refine List.nodup_append.mpr ⟨h, List.nodup_singleton _, ?_⟩
        rintro a ha b hb rfl
        exact hnew (List.mem_singleton.mp hb ▸ ha)
  exact hfold [] List.nodup_nil

theorem census_startOver (law : Lawful P) (s : ConquisterState) :
    census (startOver s) = (knownPlayers s).length • unit Power.balloon.emoji := by
  have hplayers : knownPlayers { s with scores := s.scores.mapVals fun _ => 0 } = knownPlayers s := by
    simp only [knownPlayers, List.flatMap_cons, OrderedMap.keys_mapVals]
  have hnodup : (knownPlayers s).Nodup := firstOf_nodup _
  have hgear := keptEmoji_balloons law hnodup .empty fun _ _ => rfl
  have hnone : keptEmoji OrderedMap.empty = 0 := rfl
  rw [census]
  change keptEmoji .empty + keptEmoji ((knownPlayers { s with scores := _ }).foldl balloonOn .empty) +
    emojiRiding [] = _
  rw [hplayers, hgear, hnone, emojiRiding_nil, zero_add, zero_add, add_zero]

theorem Edit.census (law : Lawful P) {s t : ConquisterState} {f : Receipt} (h : Edit s f t)
    (hf : f.TypedIn P) (hs : Kept P s) : census t = census s + f.emoji := by
  cases h with
  | quiet same => simp [NorelecBot.census, same.furniture, same.equipped, same.raids]
  | house player slots typed _ comesFrom => exact census_hang law s player (comesFrom P hs hf)
  | gear player slots typed _ comesFrom => exact census_hangGear law s player (comesFrom P hs hf)
  | unhouse player =>
    simp only [NorelecBot.census, keptEmoji_erase law, slotsOf]
    abel
  | ungear player =>
    simp only [NorelecBot.census, keptEmoji_erase law, gearOf]
    abel
  | balloon player =>
    simp only [NorelecBot.census, balloonOn, keptEmoji_set law, law.balloon, gearOf, shelf, shelfSum_cons,
      shelfSum_nil, add_zero]
    abel
  | newborn mother place male born =>
    have hslots := (hs.house mother).fillSlot place fun _ => law.faces male _ (childEmoji_mem male)
    have hhung := census_hang law s mother hslots
    rw [shelf_fillSlot_sub] at hhung
    exact hhung
  | grows child looks mem filled age =>
    have hslots := (hs.house child.owner).set child.slot.toNat fun _ => law.faces child.male _ age
    rw [census_hang law s child.owner hslots, shelf_set_sub (lt_length_of_slotAt_ne filled.2)]
  | gone before after child split within =>
    have hslots := (hs.house child.owner).cleared child.slot.toNat
    have hhung := census_hang law s child.owner hslots
    rw [shelf_set_sub within, unit_nil, zero_sub] at hhung
    exact hhung
  | moves player source target filled =>
    have hhung := census_hang law s player ((hs.house player).swapSlots source target)
    rw [shelf_swapSlots target filled, sub_self] at hhung
    exact hhung
  | setOff raid =>
    simp only [NorelecBot.census, emojiRiding_append, emojiRiding_cons, emojiRiding_nil, add_zero]
    abel
  | rides raids =>
    simp only [NorelecBot.census]
    abel
  | ridesEnd raids =>
    simp only [NorelecBot.census]
    abel
  | startsOver =>
    rw [census_startOver law]
    exact (add_sub_cancel _ _).symm
  | _ => exact (add_zero _).symm

theorem Edits.census (law : Lawful P) {s t : ConquisterState} {f : Receipt} (h : Edits s f t)
    (hf : f.TypedIn P) (hs : Kept P s) : census t = census s + f.emoji :=
  h.balance_of Receipt.emojiHom Receipt.typedIn_add (fun _ _ _ hstep => hstep.kept law)
    (fun _ _ _ hstep => hstep.census law) hf hs

end

end NorelecBot
