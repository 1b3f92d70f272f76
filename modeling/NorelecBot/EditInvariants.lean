import NorelecBot.Edits

/-! # What edits keep, and what their receipts say

The palle, the emoji and the children move by what the receipt says; the
invariants are kept by every kind of edit, and so by every run of them.
-/

namespace NorelecBot
open Lib

theorem measureAt_id (scores : Counters) (player : Str) :
    scores.measureAt id player = counter scores player := by
  rw [OrderedMap.measureAt, counter, Option.map_id, id]

theorem total_scores_set (scores : Counters) (player : Str) (value : ℤ) :
    (scores.set player value).total id = scores.total id + (value - counter scores player) := by
  have hset := scores.total_set id player value
  rw [measureAt_id, id] at hset
  omega

theorem total_scores_erase (scores : Counters) (player : Str) :
    (scores.erase player).total id = scores.total id - counter scores player := by
  have herase := scores.total_erase id player
  rw [measureAt_id] at herase
  omega

@[simp] theorem palleRiding_append (before after : List Raid) :
    palleRiding (before ++ after) = palleRiding before + palleRiding after := by
  simp [palleRiding]

@[simp] theorem palleRiding_cons (raid : Raid) (raids : List Raid) :
    palleRiding (raid :: raids) = raid.loot + raid.gift + palleRiding raids := by
  simp [palleRiding]

@[simp] theorem palleRiding_nil : palleRiding [] = 0 := rfl

theorem total_startOver (s : ConquisterState) : totalPalle (startOver s) = 0 := by
  rw [totalPalle, startOver, OrderedMap.total_mapVals, palleRiding_nil, add_zero]
  simp [OrderedMap.total]

section
variable [SlotCodec]

theorem Edit.palle {s t : ConquisterState} {f : Receipt} (h : Edit s f t) :
    totalPalle t = totalPalle s + f.palle := by
  cases h with
  | quiet same => simp [totalPalle, same.scores, same.raids]
  | score player value solvent =>
    simp only [totalPalle, total_scores_set]
    omega
  | paid player amount =>
    simp only [totalPalle, total_scores_set]
    omega
  | forget player =>
    simp only [totalPalle, total_scores_erase]
    omega
  | house player slots typed => simp [totalPalle]
  | gear player slots typed => simp [totalPalle]
  | unhouse player => simp [totalPalle]
  | ungear player => simp [totalPalle]
  | balloon player => simp [totalPalle]
  | newborn mother place male born => simp [totalPalle]
  | grows child looks => simp [totalPalle]
  | gone before after child => simp [totalPalle]
  | strays before after child => simp [totalPalle]
  | orphaned player => simp [totalPalle]
  | moves player source target => simp [totalPalle]
  | setOff raid new =>
    simp only [totalPalle, palleRiding_append, palleRiding_cons, palleRiding_nil, new.2.1]
    omega
  | rides raids =>
    simp only [totalPalle]
    omega
  | ridesEnd raids =>
    simp only [totalPalle]
    omega
  | enters hold => simp [totalPalle]
  | leaves => simp [totalPalle]
  | banks hold hold' => simp [totalPalle]
  | startsOver => rw [total_startOver, add_neg_cancel]

theorem Edits.palle {s t : ConquisterState} {f : Receipt} (h : Edits s f t) :
    totalPalle t = totalPalle s + f.palle :=
  h.balance Receipt.palleHom fun _ _ _ => Edit.palle

omit [SlotCodec] in
theorem rewritten_mem {raids raids' : List Raid} (same : List.Forall₂ Raid.Rewritten raids raids')
    {raid' : Raid} (h : raid' ∈ raids') : ∃ raid ∈ raids, raid.Rewritten raid' := by
  induction same with
  | nil => cases h
  | @cons raid first raids rest hfirst hrest ih =>
    rcases List.mem_cons.mp h with rfl | hmem
    · exact ⟨raid, List.mem_cons_self, hfirst⟩
    · obtain ⟨old, hold, hsame⟩ := ih hmem
      exact ⟨old, List.mem_cons_of_mem _ hold, hsame⟩

omit [SlotCodec] in
theorem rewritten_pairs {raids raids' : List Raid} (same : List.Forall₂ Raid.Rewritten raids raids') :
    raids'.map (fun raid => (raid.raider, raid.target)) =
      raids.map fun raid => (raid.raider, raid.target) := by
  induction same with
  | nil => rfl
  | cons hfirst hrest ih => rw [List.map_cons, List.map_cons, ih, hfirst.raider, hfirst.target]

omit [SlotCodec] in
theorem rewritten_riders {raids raids' : List Raid} (same : List.Forall₂ Raid.Rewritten raids raids') :
    raids'.map Raid.raider = raids.map Raid.raider := by
  have hpairs := congrArg (List.map Prod.fst) (rewritten_pairs same)
  simpa [List.map_map, Function.comp_def] using hpairs

omit [SlotCodec] in
theorem solvent_of {s t : ConquisterState} (h : Solvent s) (hscores : t.scores = s.scores)
    (hrides : t.raids = s.raids) : Solvent t :=
  ⟨hscores ▸ h.scores, hrides ▸ h.rides⟩

omit [SlotCodec] in
theorem solvent_startOver (s : ConquisterState) : Solvent (startOver s) := by
  refine ⟨fun player => ?_, fun raid hraid => by cases hraid⟩
  rw [counter, startOver, OrderedMap.find_mapVals]
  cases s.scores.find player <;> simp

theorem Edit.solvent {s t : ConquisterState} {f : Receipt} (h : Edit s f t) (hf : f.PaysUp)
    (hs : Solvent s) : Solvent t := by
  cases h with
  | quiet same => exact solvent_of hs same.scores same.raids
  | score player value solvent =>
    refine ⟨fun other => ?_, hs.rides⟩
    rw [counter_set]
    split
    · exact solvent hs
    · exact hs.scores other
  | paid player amount =>
    have hamount : 0 ≤ amount := hf amount (Multiset.mem_singleton_self amount)
    refine ⟨fun other => ?_, hs.rides⟩
    rw [counter_set]
    split
    · exact add_nonneg (hs.scores player) hamount
    · exact hs.scores other
  | forget player =>
    refine ⟨fun other => ?_, hs.rides⟩
    rw [counter_erase]
    split
    · exact le_rfl
    · exact hs.scores other
  | house player slots typed => exact solvent_of hs rfl rfl
  | gear player slots typed => exact solvent_of hs rfl rfl
  | unhouse player => exact solvent_of hs rfl rfl
  | ungear player => exact solvent_of hs rfl rfl
  | balloon player => exact solvent_of hs rfl rfl
  | newborn mother place male born => exact solvent_of hs rfl rfl
  | grows child looks => exact solvent_of hs rfl rfl
  | gone before after child => exact solvent_of hs rfl rfl
  | strays before after child => exact solvent_of hs rfl rfl
  | orphaned player => exact solvent_of hs rfl rfl
  | moves player source target => exact solvent_of hs rfl rfl
  | setOff raid new =>
    refine ⟨hs.scores, fun other hother => ?_⟩
    rcases List.mem_append.mp hother with hold | hnew
    · exact hs.rides other hold
    · rw [List.mem_singleton.mp hnew]
      exact ⟨new.2.1.ge, new.2.2, fun _ => new.2.1⟩
  | rides raids same orderly => exact ⟨hs.scores, orderly hs⟩
  | ridesEnd raids fewer => exact ⟨hs.scores, fun raid hraid => hs.rides raid (fewer.subset hraid)⟩
  | enters hold => exact solvent_of hs rfl rfl
  | leaves => exact solvent_of hs rfl rfl
  | banks hold hold' => exact solvent_of hs rfl rfl
  | startsOver => exact solvent_startOver s

theorem Edits.solvent {s t : ConquisterState} {f : Receipt} (h : Edits s f t) (hf : f.PaysUp)
    (hs : Solvent s) : Solvent t :=
  h.invariant_of Receipt.paysUp_add (fun _ _ _ => Edit.solvent) hf hs

theorem Edit.oneLoad {s t : ConquisterState} {f : Receipt} (h : Edit s f t) (hsolvent : Solvent s)
    (hs : OneLoad s) : OneLoad t := by
  cases h with
  | quiet same => exact fun raid hraid => hs raid (same.raids ▸ hraid)
  | setOff raid new =>
    intro other hother
    rcases List.mem_append.mp hother with hold | hnew
    · exact hs other hold
    · rw [List.mem_singleton.mp hnew]
      exact .inl new.2.1
  | rides raids same orderly single => exact single hsolvent hs
  | ridesEnd raids fewer => exact fun raid hraid => hs raid (fewer.subset hraid)
  | startsOver => exact fun raid hraid => by cases hraid
  | _ => exact hs

/-- Nobody owes anything, and every ride brings one thing. -/
structure Loaded (state : ConquisterState) : Prop where
  solvent : Solvent state
  oneLoad : OneLoad state

theorem Edits.loaded {s t : ConquisterState} {f : Receipt} (h : Edits s f t) (hf : f.PaysUp)
    (hs : Loaded s) : Loaded t :=
  h.invariant_of Receipt.paysUp_add (fun _ _ _ hstep hpaid hmid =>
    ⟨hstep.solvent hpaid hmid.solvent, hstep.oneLoad hmid.solvent hmid.oneLoad⟩) hf hs

omit [SlotCodec] in
theorem apart_of {s t : ConquisterState} (h : Apart s) (hrides : t.raids = s.raids)
    (hhold : t.current = s.current) : Apart t :=
  ⟨hrides ▸ h.riders, hhold ▸ hrides ▸ h.holder⟩

omit [SlotCodec] in
/-- Rides that stay the same ones, or fewer of them, keep their riders apart. -/
theorem apart_rides {s : ConquisterState} (h : Apart s) {raids : List Raid}
    (hfewer : (raids.map Raid.raider).Sublist (s.raids.map Raid.raider)) :
    Apart { s with raids := raids } := by
  refine ⟨hfewer.nodup h.riders, fun hold hheld raid hraid => ?_⟩
  have hmem := hfewer.subset (List.mem_map_of_mem hraid)
  obtain ⟨old, hold', heq⟩ := List.mem_map.mp hmem
  exact heq ▸ h.holder hold hheld old hold'

theorem Edit.apart {s t : ConquisterState} {f : Receipt} (h : Edit s f t) (hs : Apart s) : Apart t := by
  cases h with
  | quiet same =>
    refine ⟨same.raids ▸ hs.riders, fun hold hheld raid hraid => ?_⟩
    have hpair := same.hold
    rw [hheld] at hpair
    obtain ⟨hold', hheld', heq⟩ := Option.map_eq_some_iff.mp hpair.symm
    have hname : hold'.username = hold.username := (congrArg Holder.username heq :)
    rw [← hname]
    exact hs.holder hold' hheld' raid (same.raids ▸ hraid)
  | score player value solvent => exact apart_of hs rfl rfl
  | paid player amount => exact apart_of hs rfl rfl
  | forget player => exact apart_of hs rfl rfl
  | house player slots typed => exact apart_of hs rfl rfl
  | gear player slots typed => exact apart_of hs rfl rfl
  | unhouse player => exact apart_of hs rfl rfl
  | ungear player => exact apart_of hs rfl rfl
  | balloon player => exact apart_of hs rfl rfl
  | newborn mother place male born => exact apart_of hs rfl rfl
  | grows child looks => exact apart_of hs rfl rfl
  | gone before after child => exact apart_of hs rfl rfl
  | strays before after child => exact apart_of hs rfl rfl
  | orphaned player => exact apart_of hs rfl rfl
  | moves player source target => exact apart_of hs rfl rfl
  | setOff raid new free away =>
    refine ⟨?_, fun hold hheld other hother => ?_⟩
    · rw [List.map_append, List.nodup_append]
      refine ⟨hs.riders, List.nodup_singleton _, ?_⟩
      rintro _ hold _ hnew rfl
      obtain ⟨other, hother, heq⟩ := List.mem_map.mp hold
      exact free other hother (heq.trans (List.mem_singleton.mp hnew))
    · rcases List.mem_append.mp hother with hmem | hnew
      · exact hs.holder hold hheld other hmem
      · rw [List.mem_singleton.mp hnew]
        exact (away hold hheld).symm
  | rides raids same => exact apart_rides hs (rewritten_riders same ▸ List.Sublist.refl _)
  | ridesEnd raids fewer => exact apart_rides hs (fewer.map _)
  | enters hold free =>
    refine ⟨hs.riders, fun hold' hheld raid hraid => ?_⟩
    cases hheld
    exact free raid hraid
  | leaves => exact ⟨hs.riders, fun hold hheld => by cases hheld⟩
  | banks hold hold' held same =>
    refine ⟨hs.riders, fun hold'' hheld raid hraid => ?_⟩
    cases hheld
    exact same ▸ hs.holder hold held raid hraid
  | startsOver => exact ⟨List.nodup_nil, fun hold hheld => by cases hheld⟩

theorem Edits.apart {s t : ConquisterState} {f : Receipt} (h : Edits s f t) (hs : Apart s) : Apart t :=
  h.invariant (fun _ _ _ => Edit.apart) hs

theorem Edit.thrifty {s t : ConquisterState} {f : Receipt} (h : Edit s f t) (hs : Thrifty s) :
    Thrifty t := by
  cases h with
  | quiet same =>
    intro hold hheld
    have hpair := same.hold
    rw [hheld] at hpair
    obtain ⟨hold', hheld', heq⟩ := Option.map_eq_some_iff.mp hpair.symm
    have hbanked : hold'.banked = hold.banked := (congrArg Holder.banked heq :)
    rw [← hbanked]
    exact hs hold' hheld'
  | score player value solvent => exact hs
  | paid player amount => exact hs
  | forget player => exact hs
  | house player slots typed => exact hs
  | gear player slots typed => exact hs
  | unhouse player => exact hs
  | ungear player => exact hs
  | balloon player => exact hs
  | newborn mother place male born => exact hs
  | grows child looks => exact hs
  | gone before after child => exact hs
  | strays before after child => exact hs
  | orphaned player => exact hs
  | moves player source target => exact hs
  | setOff raid new => exact hs
  | rides raids => exact hs
  | ridesEnd raids => exact hs
  | enters hold free fresh =>
    intro hold' hheld
    cases hheld
    exact fresh.ge
  | leaves => exact fun hold hheld => by cases hheld
  | banks hold hold' held same more =>
    intro hold'' hheld
    cases hheld
    exact more (hs hold held)
  | startsOver => exact fun hold hheld => by cases hheld

theorem Edits.thrifty {s t : ConquisterState} {f : Receipt} (h : Edits s f t) (hs : Thrifty s) :
    Thrifty t :=
  h.invariant (fun _ _ _ => Edit.thrifty) hs

/-- The hold is the one it was, or the place is empty. -/
def Stands (s t : ConquisterState) : Prop :=
  t.current = none ∨ t.current.map Holder.account = s.current.map Holder.account

omit [SlotCodec] in
theorem Stands.refl (s : ConquisterState) : Stands s s := .inr rfl

omit [SlotCodec] in
theorem Stands.trans {s t u : ConquisterState} (h : Stands s t) (hnext : Stands t u) : Stands s u := by
  rcases hnext with hnone | hsame
  · exact .inl hnone
  · rcases h with hgone | hstood
    · rw [hgone, Option.map_none, Option.map_eq_none_iff] at hsame
      exact .inl hsame
    · exact .inr (hsame.trans hstood)

/-- Only who comes in, and who loses a ⚡, change what stands. -/
theorem Edit.stands {s t : ConquisterState} {f : Receipt} (h : Edit s f t) (hf : f.tended = 0) : Stands s t := by
  cases h with
  | quiet same => exact .inr same.hold
  | leaves => exact .inl rfl
  | startsOver => exact .inl rfl
  | enters hold => exact absurd hf one_ne_zero
  | banks hold hold' => exact absurd hf one_ne_zero
  | _ => exact .refl s

theorem Edits.stands {s t : ConquisterState} {f : Receipt} (h : Edits s f t) (hf : f.tended = 0) :
    Stands s t :=
  h.invariant_of (fun _ _ hsum => Nat.add_eq_zero_iff.mp hsum)
    (fun _ _ _ hstep hnone hmid => hmid.trans (hstep.stands hnone)) hf (.refl s)

def pairs (state : ConquisterState) : List (Str × Str) :=
  state.raids.map fun raid => (raid.raider, raid.target)

end

end NorelecBot
