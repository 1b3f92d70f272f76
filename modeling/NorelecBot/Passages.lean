import NorelecBot.EditKids

/-! # The small moves, as edits

Hanging, putting on, taking off, receiving and welcoming, each with its receipt.
What somebody writes is vouched for by whoever wrote it; everything else that
ends up in a slot was in the game before.
-/

namespace NorelecBot
open Lib

variable [SlotCodec]

omit [SlotCodec] in
theorem SamePlay.refl (s : ConquisterState) : SamePlay s s := ⟨rfl, rfl, rfl, rfl, rfl, rfl⟩

omit [SlotCodec] in
theorem SamePlay.trans {s t u : ConquisterState} (h : SamePlay s t) (hnext : SamePlay t u) : SamePlay s u :=
  ⟨hnext.scores.trans h.scores, hnext.raids.trans h.raids, hnext.hold.trans h.hold,
    hnext.furniture.trans h.furniture, hnext.equipped.trans h.equipped, hnext.children.trans h.children⟩

/-- A run of edits in which nothing is hung but what was there and what is in the list, and no hold
that was in order is paid a negative amount. What was written is left out of its receipt, and what a
hold was paid may be. -/
def Passage (inputs : List Str) (s : ConquisterState) (f : Receipt) (t : ConquisterState) : Prop :=
  ∃ typed, ∃ paid ≤ f.paid, Edits s { f with typed := typed, paid := paid } t ∧
    (∀ P, Lawful P → Kept P s → AllOf P inputs → ∀ emoji ∈ typed, emoji ≠ [] → P emoji) ∧
    (Thrifty s → ∀ amount ∈ paid, 0 ≤ amount)

namespace Passage

variable {inputs : List Str} {s t u : ConquisterState} {f g : Receipt}

/-- An edit that hangs nothing anybody wrote and pays no hold. -/
theorem edit (inputs : List Str) (h : Edit s f t) (htyped : f.typed = 0) (hpaid : f.paid = 0) :
    Passage inputs s f t := by
  refine ⟨f.typed, f.paid, le_rfl, .single h, fun P _ _ _ emoji hemoji => ?_, fun _ amount hamount => ?_⟩
  · rw [htyped] at hemoji
    cases hemoji
  · rw [hpaid] at hamount
    cases hamount

theorem trans (h : Passage inputs s f t) (hnext : Passage inputs t g u) : Passage inputs s (f + g) u := by
  obtain ⟨typed, paid, hle, hedits, htyped, hpaid⟩ := h
  obtain ⟨typed', paid', hle', hedits', htyped', hpaid'⟩ := hnext
  refine ⟨typed + typed', paid + paid', add_le_add hle hle', hedits.trans hedits',
    fun P law hs hinputs emoji hemoji => ?_, fun hs amount hamount => ?_⟩
  · have hfirst := htyped P law hs hinputs
    rcases Multiset.mem_add.mp hemoji with hmem | hmem
    · exact hfirst emoji hmem
    · exact htyped' P law (hedits.kept law hfirst hs) hinputs emoji hmem
  · rcases Multiset.mem_add.mp hamount with hmem | hmem
    · exact hpaid hs amount hmem
    · exact hpaid' (hedits.thrifty hs) amount hmem

theorem entered (h : Passage inputs s f t) (hfg : f = g) : Passage inputs s g t := hfg ▸ h

theorem quiet (inputs : List Str) (same : SamePlay s t) : Passage inputs s 0 t :=
  .edit inputs (.quiet same) rfl rfl

theorem refl (inputs : List Str) (s : ConquisterState) : Passage inputs s 0 s := quiet inputs (.refl s)

theorem mono (h : Passage inputs s f t) {more : List Str} (hmore : inputs ⊆ more) : Passage more s f t := by
  obtain ⟨typed, paid, hle, hedits, htyped, hpaid⟩ := h
  exact ⟨typed, paid, hle, hedits, fun P law hs hinputs => htyped P law hs fun emoji hemoji =>
    hinputs emoji (hmore hemoji), hpaid⟩

/-- What was there needs nobody to vouch for it, nor does the game's own 🎈. -/
theorem unvouched (h : Passage inputs s f t) (hown : ∀ P, Lawful P → Kept P s → AllOf P inputs)
    (others : List Str) : Passage others s f t := by
  obtain ⟨typed, paid, hle, hedits, htyped, hpaid⟩ := h
  exact ⟨typed, paid, hle, hedits, fun P law hs _ => htyped P law hs (hown P law hs), hpaid⟩

/-- No hold need have been paid. -/
theorem unpaid (h : Passage inputs s f t) (hpaid : f.paid = 0) (paid : Multiset ℤ) :
    Passage inputs s { f with paid := paid } t := by
  obtain ⟨typed, paid', hle, hedits, htyped, hnonneg⟩ := h
  rw [hpaid, Multiset.le_zero] at hle
  exact ⟨typed, paid', hle ▸ Multiset.zero_le _, hedits, htyped, hnonneg⟩

theorem palle (h : Passage inputs s f t) : totalPalle t = totalPalle s + f.palle := by
  obtain ⟨typed, paid, -, hedits, -, -⟩ := h
  exact hedits.palle

theorem thrifty (h : Passage inputs s f t) (hs : Thrifty s) : Thrifty t := by
  obtain ⟨typed, paid, -, hedits, -, -⟩ := h
  exact hedits.thrifty hs

theorem loaded (h : Passage inputs s f t) (hthrifty : Thrifty s) (hs : Loaded s) : Loaded t := by
  obtain ⟨typed, paid, -, hedits, -, hpaid⟩ := h
  exact hedits.loaded (hpaid hthrifty) hs

theorem apart (h : Passage inputs s f t) (hs : Apart s) : Apart t := by
  obtain ⟨typed, paid, -, hedits, -, -⟩ := h
  exact hedits.apart hs

theorem stands (h : Passage inputs s f t) (hf : f.tended = 0) : Stands s t := by
  obtain ⟨typed, paid, -, hedits, -, -⟩ := h
  exact hedits.stands hf

theorem kids_le (h : Passage inputs s f t) : kids s ≤ kids t + f.left := by
  obtain ⟨typed, paid, -, hedits, -, -⟩ := h
  exact hedits.kids_le

section
variable {P : Str → Prop} (law : Lawful P)
include law

theorem census (h : Passage inputs s f t) (hs : Kept P s) (hinputs : AllOf P inputs) :
    census t = census s + f.emoji := by
  obtain ⟨typed, paid, -, hedits, htyped, -⟩ := h
  exact hedits.census law (htyped P law hs hinputs) hs

theorem cared (h : Passage inputs s f t) (hinputs : AllOf P inputs) (hs : Cared P s) : Cared P t := by
  obtain ⟨typed, paid, -, hedits, htyped, -⟩ := h
  exact hedits.cared law (htyped P law hs.kept hinputs) hs

theorem inPlace (h : Passage inputs s f t) (hinputs : AllOf P inputs) (hs : InPlace P s) : InPlace P t := by
  obtain ⟨typed, paid, -, hedits, htyped, -⟩ := h
  exact hedits.inPlace law (htyped P law hs.kept hinputs) hs

end

/-- With no hold to pay, what the hold put aside does not matter. -/
theorem solvent_of_unpaid (h : Passage inputs s f t) (hpaid : f.paid = 0) (hs : Solvent s) : Solvent t := by
  obtain ⟨typed, paid, hle, hedits, -, -⟩ := h
  rw [hpaid, Multiset.le_zero] at hle
  exact hedits.solvent (fun amount hamount => by cases hle ▸ hamount) hs

end Passage

section
variable {slots slots' : List Str} {emoji : Str} {limit : ℕ}

omit [SlotCodec] in
theorem putIn_eq_some (h : putIn slots emoji limit = some slots') :
    firstEmpty slots < limit ∧ slots' = fillSlot slots (firstEmpty slots) emoji := by
  rw [putIn, freeSlot] at h
  split at h
  · exact ⟨‹_›, by simpa using h.symm⟩
  · cases h

omit [SlotCodec] in
theorem freeSlot_eq_some {slot : ℕ} (h : freeSlot slots limit = some slot) :
    slot < limit ∧ slotAt slots slot = [] := by
  rw [freeSlot] at h
  split at h
  · cases h
    exact ⟨‹_›, slotAt_firstEmpty slots⟩
  · cases h

omit [SlotCodec] in
theorem fillSlot_fits {slot : ℕ} (h : slots.length ≤ carriedLimit → slot < carriedLimit)
    (hslots : slots.length ≤ carriedLimit) : (fillSlot slots slot emoji).length ≤ carriedLimit := by
  have hslot := h hslots
  rw [fillSlot_length]
  omega

end

/-- An edit that hangs the one emoji somebody wrote. -/
theorem written {s t : ConquisterState} {emoji : Str} {f : Str → ℤ}
    (h : Edit s { emoji := f, typed := {emoji} } t) : Passage [emoji] s { emoji := f } t := by
  refine ⟨{emoji}, 0, le_rfl, .single h, fun P _ _ hinputs other hother => ?_, fun _ amount hamount => by
    cases hamount⟩
  rw [Multiset.mem_singleton.mp hother]
  exact hinputs emoji List.mem_cons_self

section
variable (s : ConquisterState) (player : Str)

/-- A slot of a house that is no child's is written. -/
theorem write_house {slot : ℕ} {emoji : Str}
    (hspared : KidsSpared s player (fillSlot (slotsOf s player) slot emoji)) :
    Passage [emoji] s { emoji := unit emoji - unit (slotAt (slotsOf s player) slot) }
      (hang s player (fillSlot (slotsOf s player) slot emoji)) := by
  have hcomes : ComesFrom s {emoji} (fillSlot (slotsOf s player) slot emoji) := fun P hs htyped =>
    (hs.house player).fillSlot slot (htyped emoji (Multiset.mem_singleton_self emoji))
  have hedit := Edit.house s player _ _ hspared hcomes
  rw [shelf_fillSlot_sub] at hedit
  exact written hedit

theorem write_gear {slot : ℕ} (emoji : Str)
    (hfits : (gearOf s player).length ≤ carriedLimit → slot < carriedLimit) :
    Passage [emoji] s { emoji := unit emoji - unit (slotAt (gearOf s player) slot) }
      (hangGear s player (fillSlot (gearOf s player) slot emoji)) := by
  have hcomes : ComesFrom s {emoji} (fillSlot (gearOf s player) slot emoji) := fun P hs htyped =>
    (hs.gear player).fillSlot slot (htyped emoji (Multiset.mem_singleton_self emoji))
  have hedit := Edit.gear s player _ _ (fillSlot_fits hfits) hcomes
  rw [shelf_fillSlot_sub] at hedit
  exact written hedit

/-- A house is hung again with one emoji more, in a slot nobody was in. -/
theorem fill_house {slot : ℕ} (emoji : Str) (hslot : slotAt (slotsOf s player) slot = []) :
    Passage [emoji] s { emoji := unit emoji } (hang s player (fillSlot (slotsOf s player) slot emoji)) := by
  have hspared : KidsSpared s player (fillSlot (slotsOf s player) slot emoji) := by
    intro child _ _ _ hthere
    rw [slotAt_fillSlot, if_neg]
    rintro rfl
    exact ageEmoji_ne_nil hthere hslot
  exact (write_house s player hspared).entered (by rw [hslot, unit_nil, sub_zero])

theorem fill_gear {slot : ℕ} (emoji : Str) (hslot : slotAt (gearOf s player) slot = [])
    (hfits : slot < carriedLimit) :
    Passage [emoji] s { emoji := unit emoji }
      (hangGear s player (fillSlot (gearOf s player) slot emoji)) :=
  (write_gear s player emoji fun _ => hfits).entered (by rw [hslot, unit_nil, sub_zero])

/-- A slot of a house where no child is becomes empty. -/
theorem clear_house {slot : ℕ} (hslot : slotAt (slotsOf s player) slot ≠ [])
    (hkid : isChild s player slot = false) (inputs : List Str) :
    Passage inputs s { emoji := -unit (slotAt (slotsOf s player) slot) }
      (hang s player ((slotsOf s player).set slot [])) := by
  have hspared : KidsSpared s player ((slotsOf s player).set slot []) := by
    intro child hchild howner hnonneg _
    rw [slotAt_set, if_neg]
    rintro ⟨heq, -⟩
    have hnone : ∀ other ∈ s.children, ¬ (other.owner = player ∧ other.slot = (slot : ℤ)) := by
      simpa [isChild] using hkid
    refine hnone child hchild ⟨howner, ?_⟩
    omega
  have hedit := Edit.house s player _ 0 hspared fun P hs _ => (hs.house player).cleared slot
  rw [shelf_set_sub (lt_length_of_slotAt_ne hslot), unit_nil, zero_sub] at hedit
  exact .edit inputs hedit rfl rfl

theorem clear_gear {slot : ℕ} (hslot : slotAt (gearOf s player) slot ≠ []) (inputs : List Str) :
    Passage inputs s { emoji := -unit (slotAt (gearOf s player) slot) }
      (hangGear s player ((gearOf s player).set slot [])) := by
  have hedit := Edit.gear s player ((gearOf s player).set slot []) 0
    (fun hfits => by rwa [List.length_set]) fun P hs _ => (hs.gear player).cleared slot
  rw [shelf_set_sub (lt_length_of_slotAt_ne hslot), unit_nil, zero_sub] at hedit
  exact .edit inputs hedit rfl rfl

end

section
variable {s t : ConquisterState} {player emoji : Str} {limit : ℕ}

theorem putOn_passage (h : putOn s player emoji = some t) :
    Passage [emoji] s { emoji := unit emoji } t := by
  rw [putOn, Option.map_eq_some_iff] at h
  obtain ⟨slots, hput, rfl⟩ := h
  obtain ⟨hfree, rfl⟩ := putIn_eq_some hput
  exact fill_gear s player emoji (slotAt_firstEmpty _) hfree

theorem putInHouse_passage (h : putInHouse s player emoji limit = some t) :
    Passage [emoji] s { emoji := unit emoji } t := by
  rw [putInHouse, Option.map_eq_some_iff] at h
  obtain ⟨slots, hput, rfl⟩ := h
  obtain ⟨-, rfl⟩ := putIn_eq_some hput
  exact fill_house s player emoji (slotAt_firstEmpty _)

theorem receive_cases {onHim : Bool} (h : receive s player emoji limit = some (onHim, t)) :
    putOn s player emoji = some t ∨ putInHouse s player emoji limit = some t := by
  rw [receive] at h
  split at h
  · rename_i worn hworn
    cases h
    split at hworn
    · exact .inl hworn
    · cases hworn
  · rw [Option.map_eq_some_iff] at h
    obtain ⟨kept, hkept, heq⟩ := h
    cases heq
    exact .inr hkept

theorem gearSlotHolding_eq_some {slot : ℕ} (h : gearSlotHolding s player emoji = some slot) :
    slotAt (gearOf s player) slot ≠ [] ∧ sameEmoji (slotAt (gearOf s player) slot) emoji = true := by
  have htest := List.find?_some h
  simpa using htest

theorem slotHolding_eq_some {slot : ℕ} (h : slotHolding s player emoji = some slot) :
    slotAt (slotsOf s player) slot ≠ [] ∧ sameEmoji (slotAt (slotsOf s player) slot) emoji = true ∧
      isChild s player slot = false := by
  have htest := List.find?_some h
  simpa [and_assoc] using htest

theorem takeEmoji_passage (h : takeEmoji s player emoji = some t) :
    Passage [] s { emoji := -unit emoji } t := by
  rw [takeEmoji] at h
  split at h
  · rename_i slot hslot
    cases h
    obtain ⟨hne, hsame⟩ := gearSlotHolding_eq_some hslot
    exact (clear_gear s player hne []).entered (by rw [unit_congr hsame])
  · rw [Option.map_eq_some_iff] at h
    obtain ⟨slot, hslot, rfl⟩ := h
    obtain ⟨hne, hsame, hkid⟩ := slotHolding_eq_some hslot
    exact (clear_house s player hne hkid []).entered (by rw [unit_congr hsame])

omit [SlotCodec] in
theorem looksLike_iff {slots : List Str} {child : Child} : looksLike player slots emoji child = true ↔
    child.owner = player ∧ 0 ≤ child.slot ∧ child.slot.toNat < slots.length ∧
      sameEmoji (slotAt slots child.slot.toNat) emoji = true := by
  simp [looksLike, and_assoc]

/-- The first child of his that looks like that, when there is one, is burnt; its slot is free. -/
theorem burnChild_passage (h : namesChild s player emoji = true) :
    ∃ child ∈ s.children, looksLike player (slotsOf s player) emoji child = true ∧
      Passage [] s { emoji := -unit emoji, left := {child.self} } (burnChild s player emoji) := by
  obtain ⟨kid, hkid, hlooks⟩ := List.any_eq_true.mp h
  have hfound : (s.children.find? (looksLike player (slotsOf s player) emoji)).isSome :=
    List.find?_isSome.mpr ⟨kid, hkid, hlooks⟩
  obtain ⟨child, hchild⟩ := Option.isSome_iff_exists.mp hfound
  obtain ⟨hlike, before, after, hsplit, hbefore⟩ := List.find?_eq_some_iff_append.mp hchild
  obtain ⟨howner, hnonneg, hwithin, hsame⟩ := looksLike_iff.mp hlike
  have herase : s.children.eraseP (looksLike player (slotsOf s player) emoji) = before ++ after := by
    rw [hsplit, List.eraseP_append_right _ (fun other hother => by simpa using hbefore other hother),
      List.eraseP_cons_of_pos hlike]
  have hburnt : burnChild s player emoji =
      { hang s child.owner ((slotsOf s child.owner).set child.slot.toNat []) with
        children := before ++ after } := by
    rw [burnChild, hchild, howner]
    simp only [herase]
    rfl
  refine ⟨child, List.mem_of_find?_eq_some hchild, hlike, ?_⟩
  rw [hburnt, ← unit_congr hsame]
  subst howner
  exact .edit [] (.gone s before after child hsplit hwithin) rfl rfl

end

def handsBalloon (s : ConquisterState) (player : Str) (limit : ℕ) : Bool :=
  counter s.welcomed player = 0 && !hasBalloon (markWelcomed s player) player &&
    (hangBalloon (markWelcomed s player) player limit).isSome

theorem hangBalloon_passage {s t : ConquisterState} {player : Str} {limit : ℕ}
    (h : hangBalloon s player limit = some t) :
    Passage [Power.balloon.emoji] s { emoji := unit Power.balloon.emoji } t := by
  rw [hangBalloon] at h
  split at h
  · cases h
  · split at h
    · rename_i worn hworn
      cases h
      exact putOn_passage hworn
    · exact putInHouse_passage h

theorem welcome_passage (s : ConquisterState) (player : Str) (limit : ℕ) :
    Passage [] s { emoji := if handsBalloon s player limit then unit Power.balloon.emoji else 0 }
      (welcome s player limit) := by
  have hmark : SamePlay s (markWelcomed s player) := ⟨rfl, rfl, rfl, rfl, rfl, rfl⟩
  rw [welcome, handsBalloon]
  by_cases hfresh : counter s.welcomed player = 0
  · rw [if_neg (not_not.mpr hfresh)]
    cases hballoon : hasBalloon (markWelcomed s player) player with
    | true => simpa using Passage.quiet [] hmark
    | false =>
      cases hhang : hangBalloon (markWelcomed s player) player limit with
      | none => simpa using Passage.quiet [] hmark
      | some t =>
        have hours := (hangBalloon_passage hhang).unvouched (fun _ law _ => allOf_balloon law) []
        have hrun := (Passage.quiet [] hmark).trans hours
        rw [zero_add] at hrun
        simpa [hfresh] using hrun
  · rw [if_pos hfresh]
    simpa [hfresh] using Passage.refl [] s

end NorelecBot
