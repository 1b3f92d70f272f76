import NorelecBot.EditPlaces

/-! # Children stay where they were born

No edit writes over the slot of a child but those that let it grow or leave, and
a child that is no more is on the receipt.
-/

namespace NorelecBot
open Lib

theorem slotAt_swapSlots {slots : List Str} {source : ℕ} (target : ℕ) (h : slotAt slots source ≠ [])
    (slot : ℕ) : slotAt (swapSlots slots source target) slot =
      if slot = target then slotAt slots source
      else if slot = source then slotAt slots target else slotAt slots slot := by
  have hsource := lt_length_of_slotAt_ne h
  have hpad : (padSlots (target + 1) slots).length = max slots.length (target + 1) := padSlots_length _ _
  have hfirst : source < (padSlots (target + 1) slots).length := by omega
  have hsecond : target < ((padSlots (target + 1) slots).set source (slotAt slots target)).length := by
    rw [List.length_set]
    omega
  rw [swapSlots, slotAt_set, slotAt_set, slotAt_padSlots]
  simp only [hfirst, hsecond, and_true]

def swappedSlot (source target : ℕ) (slot : ℤ) : ℤ :=
  if slot = source then target else if slot = target then source else slot

theorem swappedSlot_injective (source target : ℕ) : Function.Injective (swappedSlot source target) := by
  intro one other h
  simp only [swappedSlot] at h
  grind

theorem Child.swapped_slot (child : Child) (player : Str) (source target : ℕ) :
    (child.swapped player source target).slot =
      if child.owner = player then swappedSlot source target child.slot else child.slot := by
  rw [Child.swapped, swappedSlot]
  split_ifs <;> simp_all

@[simp] theorem Child.swapped_owner (child : Child) (player : Str) (source target : ℕ) :
    (child.swapped player source target).owner = child.owner := by
  rw [Child.swapped]
  split_ifs <;> rfl

@[simp] theorem Child.swapped_male (child : Child) (player : Str) (source target : ℕ) :
    (child.swapped player source target).male = child.male := by
  rw [Child.swapped]
  split_ifs <;> rfl

@[simp] theorem Child.swapped_self (child : Child) (player : Str) (source target : ℕ) :
    (child.swapped player source target).self = child.self := by
  rw [Child.swapped]
  split_ifs <;> rfl

def Child.cot (child : Child) : Str × ℤ := (child.owner, child.slot)

section
variable [SlotCodec]

theorem kidsHome_of {s t : ConquisterState} (h : KidsHome s) (hhouse : t.furniture = s.furniture)
    (hkids : t.children = s.children) : KidsHome t := by
  have hsame : ∀ player, slotsOf t player = slotsOf s player := fun player => by
    rw [slotsOf, slotsOf, hhouse]
  refine ⟨fun child hchild => ?_, hkids ▸ h.apart⟩
  rw [hsame]
  exact h.there child (hkids ▸ hchild)

/-- Fewer children stay where they are. -/
theorem kidsHome_fewer {s t : ConquisterState} (h : KidsHome s) (hhouse : t.furniture = s.furniture)
    (hkids : t.children.Sublist s.children) : KidsHome t := by
  refine ⟨fun child hchild => ?_, (hkids.map _).nodup h.apart⟩
  have hsame : slotsOf t child.owner = slotsOf s child.owner := by rw [slotsOf, slotsOf, hhouse]
  rw [hsame]
  exact h.there child (hkids.subset hchild)

theorem kidsHome_quiet {s t : ConquisterState} (same : SamePlay s t) (h : KidsHome s) : KidsHome t := by
  have hsame : ∀ player, slotsOf t player = slotsOf s player := fun player => by
    rw [slotsOf, slotsOf, same.furniture]
  refine ⟨fun child hchild => ?_, ?_⟩
  · have hrecord : child.record ∈ s.children.map Child.record :=
      same.children ▸ List.mem_map_of_mem hchild
    obtain ⟨old, hold, heq⟩ := List.mem_map.mp hrecord
    simp only [Child.record, Prod.mk.injEq] at heq
    rw [hsame, ← heq.1, ← heq.2.1, ← heq.2.2.1]
    exact h.there old hold
  · have hcots := congrArg (List.map fun record => (record.1, record.2.1)) same.children
    simp only [List.map_map, Function.comp_def, Child.record] at hcots
    exact hcots ▸ h.apart

variable {P : Str → Prop}

theorem kidsHome_hang (law : Lawful P) {s : ConquisterState} (h : KidsHome s) (player : Str)
    {slots : List Str} (hslots : AllOf P slots) (hspared : KidsSpared s player slots) :
    KidsHome (hang s player slots) := by
  refine ⟨fun child hchild => ?_, h.apart⟩
  have hcot := h.there child hchild
  rw [slotsOf_hang_lawful law s player hslots]
  split
  · rename_i howner
    rw [slotAt_trimSlots, hspared child hchild howner hcot.1 (howner ▸ hcot.2), ← howner]
    exact hcot
  · exact hcot

/-- Two children in one slot are one child. -/
theorem KidsHome.same_cot {s : ConquisterState} (h : KidsHome s) {one other : Child}
    (hone : one ∈ s.children) (hother : other ∈ s.children) (heq : one.cot = other.cot) : one = other :=
  List.inj_on_of_nodup_map h.apart hone hother heq

theorem kidsHome_newborn (law : Lawful P) {s : ConquisterState} (hs : Kept P s) (h : KidsHome s)
    (mother : Str) (place : ℕ) (male : Bool) (born : ℤ)
    (free : ∀ child ∈ s.children, child.owner = mother → child.slot ≠ place) :
    KidsHome { hang s mother (fillSlot (slotsOf s mother) place (childEmoji male 0)) with
      children := s.children ++ [{ owner := mother, slot := place, male := male, born := born }] } := by
  have hslots : AllOf P (fillSlot (slotsOf s mother) place (childEmoji male 0)) :=
    (hs.house mother).fillSlot place fun _ => law.faces male _ (childEmoji_mem male)
  have hhouse (player : Str) := slotsOf_hang_lawful law s mother hslots player
  refine ⟨fun child hchild => ?_, ?_⟩
  · change 0 ≤ child.slot ∧ slotAt (slotsOf (hang s mother _) child.owner) child.slot.toNat ∈ _
    rw [hhouse]
    rcases List.mem_append.mp hchild with hold | hnew
    · have hcot := h.there child hold
      split
      · rename_i howner
        have hne : child.slot.toNat ≠ place := by
          have hfree := free child hold howner
          omega
        rw [slotAt_trimSlots, slotAt_fillSlot, if_neg hne, ← howner]
        exact hcot
      · exact hcot
    · rw [List.mem_singleton.mp hnew, if_pos rfl, slotAt_trimSlots, slotAt_fillSlot, Int.toNat_natCast,
        if_pos rfl]
      exact ⟨Int.natCast_nonneg _, childEmoji_mem male⟩
  · rw [List.map_append, List.nodup_append]
    refine ⟨h.apart, List.nodup_singleton _, ?_⟩
    rintro _ hold _ hnew rfl
    obtain ⟨child, hchild, heq⟩ := List.mem_map.mp hold
    rw [List.map_singleton, List.mem_singleton] at hnew
    obtain ⟨howner, hslot⟩ := Prod.mk.inj (heq.trans hnew)
    exact free child hchild howner hslot

theorem kidsHome_grows (law : Lawful P) {s : ConquisterState} (hs : Kept P s) (h : KidsHome s)
    {child : Child} {looks : Str} (mem : child ∈ s.children) (age : looks ∈ ageEmoji child.male) :
    KidsHome (hang s child.owner ((slotsOf s child.owner).set child.slot.toNat looks)) := by
  have hslots := (hs.house child.owner).set child.slot.toNat fun _ => law.faces child.male _ age
  refine ⟨fun other hother => ?_, h.apart⟩
  have hcot := h.there other hother
  rw [slotsOf_hang_lawful law s child.owner hslots]
  split
  · rename_i howner
    rw [slotAt_trimSlots, slotAt_set]
    split
    · rename_i hslot
      have hslots_eq : other.slot = child.slot := by
        have hnonneg := (h.there child mem).1
        omega
      have heq : other = child := h.same_cot hother mem (Prod.ext howner hslots_eq)
      exact ⟨hcot.1, heq ▸ age⟩
    · exact ⟨hcot.1, howner ▸ hcot.2⟩
  · exact hcot

theorem kidsHome_gone (law : Lawful P) {s : ConquisterState} (hs : Kept P s) (h : KidsHome s)
    {before after : List Child} {child : Child} (split : s.children = before ++ child :: after) :
    KidsHome { hang s child.owner ((slotsOf s child.owner).set child.slot.toNat []) with
      children := before ++ after } := by
  have hslots := (hs.house child.owner).cleared child.slot.toNat
  have hsub : (before ++ after).Sublist s.children := by
    rw [split]
    exact List.Sublist.append_left (List.sublist_cons_self child after) before
  have hmem : child ∈ s.children := split ▸ List.mem_append_right _ List.mem_cons_self
  have hout : ∀ other ∈ before ++ after, other.cot ≠ child.cot := by
    intro other hother heq
    have hapart := h.apart
    rw [split, List.map_append, List.map_cons, List.nodup_middle, List.nodup_cons,
      ← List.map_append] at hapart
    exact hapart.1 (List.mem_map.mpr ⟨other, hother, heq⟩)
  refine ⟨fun other hother => ?_, (hsub.map _).nodup h.apart⟩
  have hcot := h.there other (hsub.subset hother)
  change 0 ≤ other.slot ∧ slotAt (slotsOf (hang s child.owner _) other.owner) other.slot.toNat ∈ _
  rw [slotsOf_hang_lawful law s child.owner hslots]
  split_ifs with howner
  · rw [slotAt_trimSlots, slotAt_set, if_neg, ← howner]
    · exact hcot
    · rintro ⟨hslot, -⟩
      refine hout other hother (Prod.ext howner ?_)
      have hnonneg := (h.there child hmem).1
      change other.slot = child.slot
      omega
  · exact hcot

theorem kidsHome_moves (law : Lawful P) {s : ConquisterState} (hs : Kept P s) (h : KidsHome s)
    (player : Str) (source target : ℕ) (filled : slotAt (slotsOf s player) source ≠ []) :
    KidsHome (hang { s with children := s.children.map (·.swapped player source target) } player
      (swapSlots (slotsOf s player) source target)) := by
  have hslots := (hs.house player).swapSlots source target
  refine ⟨fun moved hmoved => ?_, ?_⟩
  · obtain ⟨child, hchild, rfl⟩ := List.mem_map.mp hmoved
    have hcot := h.there child hchild
    have hhouse := slotsOf_hang_lawful law
      { s with children := s.children.map (·.swapped player source target) } player hslots child.owner
    rw [Child.swapped_owner, Child.swapped_male, Child.swapped_slot, hhouse]
    split
    · rename_i howner
      rw [slotAt_trimSlots, slotAt_swapSlots target filled, ← howner]
      have hnonneg := hcot.1
      refine ⟨?_, ?_⟩
      · rw [swappedSlot]
        split_ifs <;> omega
      · rw [swappedSlot]
        rcases eq_or_ne child.slot source with hsource | hsource
        · rw [if_pos hsource, if_pos (Int.toNat_natCast _)]
          simpa [hsource] using hcot.2
        · rw [if_neg hsource]
          rcases eq_or_ne child.slot target with htarget | htarget
          · rw [if_pos htarget, Int.toNat_natCast]
            have hne : source ≠ target := fun heq => hsource (htarget.trans (by rw [heq]))
            rw [if_neg hne, if_pos rfl]
            simpa [htarget] using hcot.2
          · rw [if_neg htarget, if_neg (by omega), if_neg (by omega)]
            exact hcot.2
    · exact hcot
  · change ((s.children.map (·.swapped player source target)).map fun child => (child.owner, child.slot)).Nodup
    rw [List.map_map]
    refine List.Nodup.map_on ?_ (List.Nodup.of_map _ h.apart)
    intro one hone other hother heq
    refine h.same_cot hone hother ?_
    simp only [Function.comp_apply, Child.swapped_owner, Child.swapped_slot, Prod.mk.injEq] at heq
    obtain ⟨howner, hslot⟩ := heq
    rw [howner] at hslot
    refine Prod.ext howner ?_
    split_ifs at hslot
    · exact swappedSlot_injective source target hslot
    · exact hslot

theorem Edit.kidsHome (law : Lawful P) {s t : ConquisterState} {f : Receipt} (h : Edit s f t)
    (hf : f.TypedIn P) (hs : Kept P s) (hkids : KidsHome s) : KidsHome t := by
  cases h with
  | quiet same => exact kidsHome_quiet same hkids
  | house player slots typed spared comesFrom =>
    exact kidsHome_hang law hkids player (comesFrom P hs hf) spared
  | unhouse player childless =>
    refine ⟨fun child hchild => ?_, hkids.apart⟩
    have hcot := hkids.there child hchild
    rw [slotsOf_unhouse law]
    split
    · rename_i howner
      exact absurd (howner ▸ hcot.2) (childless child hchild howner)
    · exact hcot
  | newborn mother place male born free =>
    refine kidsHome_newborn law hs hkids mother place male born fun child hchild howner hslot => ?_
    have hcot := hkids.there child hchild
    rw [howner, hslot, Int.toNat_natCast] at hcot
    exact free child hchild howner hslot hcot.2
  | grows child looks mem filled age => exact kidsHome_grows law hs hkids mem age
  | gone before after child split within => exact kidsHome_gone law hs hkids split
  | strays before after child split empty =>
    refine kidsHome_fewer hkids rfl ?_
    rw [split]
    exact List.Sublist.append_left (List.sublist_cons_self child after) before
  | orphaned player => exact kidsHome_fewer hkids rfl List.filter_sublist
  | moves player source target filled => exact kidsHome_moves law hs hkids player source target filled
  | startsOver => exact ⟨fun child hchild => (by cases hchild), List.nodup_nil⟩
  | _ => exact kidsHome_of hkids rfl rfl

/-- What every run keeps of the children and of the emoji they are among. -/
structure Cared (P : Str → Prop) (state : ConquisterState) : Prop where
  kept : Kept P state
  home : KidsHome state

theorem Edits.cared (law : Lawful P) {s t : ConquisterState} {f : Receipt} (h : Edits s f t)
    (hf : f.TypedIn P) (hs : Cared P s) : Cared P t :=
  h.invariant_of Receipt.typedIn_add (fun _ _ _ hstep htyped hmid =>
    ⟨hstep.kept law htyped hmid.kept, hstep.kidsHome law htyped hmid.kept hmid.home⟩) hf hs

theorem Edit.kids_le {s t : ConquisterState} {f : Receipt} (h : Edit s f t) :
    kids s ≤ kids t + f.left := by
  cases h with
  | quiet same =>
    have hselves := congrArg (List.map fun record => (record.1, record.2.2)) same.children
    simp only [List.map_map, Function.comp_def, Child.record] at hselves
    have hkids : kids t = kids s := congrArg Multiset.ofList hselves
    rw [hkids]
    exact Multiset.le_add_right _ _
  | newborn mother place male born =>
    refine le_trans ?_ (Multiset.le_add_right _ _)
    exact Multiset.coe_le.mpr ((List.sublist_append_left _ _).map _).subperm
  | gone before after child split =>
    refine Multiset.coe_le.mpr (List.Perm.subperm ?_)
    rw [split]
    simpa using List.perm_middle.trans (List.perm_append_singleton _ _).symm
  | strays before after child split =>
    refine Multiset.coe_le.mpr (List.Perm.subperm ?_)
    rw [split]
    simpa using List.perm_middle.trans (List.perm_append_singleton _ _).symm
  | orphaned player =>
    refine Multiset.coe_le.mpr (List.Perm.subperm ?_)
    rw [← List.map_append]
    refine List.Perm.map _ ?_
    refine ((List.filter_append_perm (fun child => decide (child.owner = player)) s.children).symm).trans ?_
    simpa using List.perm_append_comm
  | moves player source target =>
    have hkids : kids (hang { s with children := s.children.map (·.swapped player source target) } player
        (swapSlots (slotsOf s player) source target)) = kids s := by
      simp [kids, List.map_map, Function.comp_def]
    rw [hkids]
    exact Multiset.le_add_right _ _
  | startsOver => exact Multiset.le_add_left _ _
  | _ => exact Multiset.le_add_right _ _

theorem Edits.kids_le {s t : ConquisterState} {f : Receipt} (h : Edits s f t) : kids s ≤ kids t + f.left :=
  h.loses_at_most Receipt.leftHom fun _ _ _ hstep => hstep.kids_le

end

end NorelecBot
