import NorelecBot.DeliveryPassages

/-! # One round of the keeper, as edits

A ride that is settled stays on the list until the round is over, with what it
brought still written on it. The round is followed on the list where the rides
settled so far are emptied.
-/

namespace NorelecBot
open Lib

def Raid.emptied (raid : Raid) : Raid := { raid with loot := 0, gift := 0, giftEmoji := [] }

def settledBefore (now : ℤ) (index : ℕ) (raids : List Raid) : List Raid :=
  raids.mapIdx fun place raid => if place < index ∧ raid.over now then raid.emptied else raid

section
variable (now : ℤ) (index : ℕ) (raids : List Raid)

theorem settledBefore_get (place : ℕ) : (settledBefore now index raids)[place]? =
    raids[place]?.map fun raid => if place < index ∧ raid.over now then raid.emptied else raid := by
  rw [settledBefore, List.getElem?_mapIdx]

theorem settledBefore_zero : settledBefore now 0 raids = raids := by
  refine List.ext_getElem? fun place => ?_
  rw [settledBefore_get]
  simp

theorem settledBefore_here : (settledBefore now index raids)[index]? = raids[index]? := by
  rw [settledBefore_get]
  simp

theorem settledBefore_set (raid : Raid) : settledBefore now index (raids.set index raid) =
    (settledBefore now index raids).set index raid := by
  refine List.ext_getElem? fun place => ?_
  have hlength : (settledBefore now index raids).length = raids.length := List.length_mapIdx
  rw [settledBefore_get, List.getElem?_set, List.getElem?_set, settledBefore_get, hlength]
  by_cases hplace : index = place
  · subst hplace
    simp
  · simp [hplace]

/-- Calling rides off comes to the same whether or not the settled ones are emptied before. -/
theorem settledBefore_callOff (player : Str) : settledBefore now index (callOff raids player now) =
    callOff (settledBefore now index raids) player now := by
  refine List.ext_getElem? fun place => ?_
  rw [settledBefore_get, callOff, callOff, List.getElem?_map, List.getElem?_map, settledBefore_get, Option.map_map,
    Option.map_map]
  congr 1
  funext raid
  simp only [Function.comp_apply]
  by_cases hraider : raid.raider = player
  · have hemptied : raid.emptied.raider = player := hraider
    split_ifs <;> rfl
  · have hemptied : ¬ raid.emptied.raider = player := hraider
    split_ifs <;> rfl

theorem settledBefore_struckRides (victim : Str) (reset : Bool) :
    settledBefore now index (struckRides raids victim reset now) =
      struckRides (settledBefore now index raids) victim reset now := by
  cases reset with
  | false => rfl
  | true => exact settledBefore_callOff now index raids victim

variable {raids} {index}

theorem settledBefore_over {raid : Raid} (h : raids[index]? = some raid) (hover : raid.over now = true) :
    settledBefore now (index + 1) raids = (settledBefore now index raids).set index raid.emptied := by
  refine List.ext_getElem? fun place => ?_
  have hlength : (settledBefore now index raids).length = raids.length := List.length_mapIdx
  obtain ⟨hlt, hget⟩ := List.getElem?_eq_some_iff.mp h
  rw [settledBefore_get, List.getElem?_set, settledBefore_get, hlength]
  by_cases hplace : index = place
  · subst hplace
    simp [hget, hover, hlt]
  · have hnext : place < index + 1 ↔ place < index := by omega
    simp [hplace, hnext]

theorem settledBefore_under (h : ∀ raid, raids[index]? = some raid → raid.over now = false) :
    settledBefore now (index + 1) raids = settledBefore now index raids := by
  refine List.ext_getElem? fun place => ?_
  rw [settledBefore_get, settledBefore_get]
  by_cases hplace : place = index
  · subst hplace
    cases hraid : raids[place]? with
    | none => rfl
    | some raid => simp [h raid hraid]
  · have hnext : place < index + 1 ↔ place < index := by omega
    simp [hnext]

end

/-- The game with the rides settled so far out of the way. -/
def afoot (now : ℤ) (index : ℕ) (state : ConquisterState) : ConquisterState :=
  state.riding (settledBefore now index state.raids)

theorem afoot_zero (now : ℤ) (s : ConquisterState) : afoot now 0 s = s := by
  rw [afoot, settledBefore_zero]
  rfl

variable [SlotCodec]

theorem bringPalle_round (s : ConquisterState) {raids : List Raid} {raid : Raid} (h : raid ∈ raids) :
    Round (s.riding raids) { palle := raid.loot + raid.gift } ((bringPalle s raid).riding raids) := by
  rw [bringPalle]
  split
  · rename_i hbrings
    have hscore := Passage.score [] (s.riding raids) raid.raider
      (counter s.scores raid.raider + (raid.loot + raid.gift))
      fun hs => add_nonneg (hs.scores raid.raider) hbrings.le
    refine .of (hscore.entered ?_) rfl
    ext
    · exact add_sub_cancel_left _ _
    all_goals rfl
  · refine ⟨rfl, 0, .refl [] _, fun hs => ?_⟩
    have horder := hs.rides raid h
    have hloot := horder.loot
    have hgift := horder.gift
    change 0 = raid.loot + raid.gift
    omega

omit [SlotCodec] in
theorem bringPalle_raids (s : ConquisterState) (raid : Raid) : (bringPalle s raid).raids = s.raids := by
  rw [bringPalle]
  split <;> rfl

/-- There is always a slot more in the house. -/
theorem bringBack_cases (s : ConquisterState) (raider : Str) {giftEmoji : Str} (h : giftEmoji ≠ []) :
    putOn s raider giftEmoji = some (bringBack s raider giftEmoji) ∨
      putInHouse s raider giftEmoji ((slotsOf s raider).length + 1) = some (bringBack s raider giftEmoji) := by
  rw [bringBack, if_neg h]
  split
  · rename_i worn hworn
    exact .inl hworn
  · have hfree : firstEmpty (slotsOf s raider) < (slotsOf s raider).length + 1 :=
      Nat.lt_succ_of_le (firstEmpty_le_length _)
    refine .inr ?_
    rw [putInHouse, putIn, freeSlot, if_pos hfree]
    rfl

theorem bringBack_round (s : ConquisterState) {raids : List Raid} {raid : Raid} (h : raid ∈ raids) :
    Round (s.riding raids) { emoji := unit raid.giftEmoji }
      ((bringBack s raid.raider raid.giftEmoji).riding raids) ∧
      (bringBack s raid.raider raid.giftEmoji).raids = s.raids := by
  by_cases hemoji : raid.giftEmoji = []
  · rw [bringBack, if_pos hemoji, hemoji]
    exact ⟨.refl _, rfl⟩
  · exact takenIn_round (bringBack_cases s raid.raider hemoji) h rfl

theorem homecoming_round (s : ConquisterState) {raids : List Raid} {index : ℕ} {raid : Raid}
    (h : raids[index]? = some raid) (now : ℤ) :
    Round (s.riding raids) 0 ((homecoming s raid now).2.riding (raids.set index raid.emptied)) ∧
      (homecoming s raid now).2.raids = s.raids := by
  have hmem := List.mem_of_getElem? h
  have hpaid := bringPalle_round s hmem
  obtain ⟨hback, hraids⟩ := bringBack_round (bringPalle s raid) hmem
  have hoff := becomes_passage (bringBack (bringPalle s raid) raid.raider raid.giftEmoji) h raid.emptied
    ⟨rfl, rfl, .inr rfl⟩ (fun hs => ⟨le_rfl, le_rfl, fun _ => rfl⟩) fun _ _ => .inl rfl
  refine ⟨((hpaid.trans hback).trans (.of hoff rfl)).entered ?_, hraids.trans (bringPalle_raids s raid)⟩
  ext
  · change raid.loot + raid.gift + 0 + (0 + 0 - (raid.loot + raid.gift)) = 0
    omega
  · change 0 + unit raid.giftEmoji _ + (0 - unit raid.giftEmoji _) = 0
    omega
  all_goals simp

/-- What a ☢️ wipes when the ride at an index delivers it; rides settled before in this round have
nothing on them any more. -/
def rideStrike [Clock] (state : ConquisterState) (index : ℕ) (now : ℤ) (rules : RaidRules) (draws : RaidDraws) :
    Receipt :=
  match state.raids[index]? with
  | none => 0
  | some raid =>
    if raid.due now then
      match arrival state index raid now rules draws with
      | .error _ => 0
      | .ok (event, _) => struckDown state (settledBefore now index state.raids) index raid event
    else 0

def strikes [Clock] (now : ℤ) (rules : RaidRules) (draws : ℕ → RaidDraws) : ℕ → ℕ → ConquisterState → Receipt
  | 0, _, _ => 0
  | count + 1, index, state =>
    match settleRide state index now rules (draws index) with
    | .error _ => 0
    | .ok (_, settled) =>
      rideStrike state index now rules (draws index) + strikes now rules draws count (index + 1) settled

theorem settleArrival_round [Clock] {s t : ConquisterState} {index : ℕ} {now : ℤ} {rules : RaidRules}
    {draws : RaidDraws} {events : List RaidEvent} (h : settleArrival s index now rules draws = .ok (events, t)) :
    Round (afoot now index s) ({ emoji := entries events } + rideStrike s index now rules draws) (afoot now index t) ∧
      t.raids.length = s.raids.length := by
  rw [settleArrival] at h
  rw [rideStrike]
  cases hraid : s.raids[index]? with
  | none =>
    rw [hraid] at h
    cases h
    exact ⟨(Round.refl _).entered (by simp [entries]), rfl⟩
  | some raid =>
    rw [hraid] at h
    dsimp only at h ⊢
    by_cases hdue : raid.due now = true
    · rw [if_pos hdue] at h ⊢
      cases harrival : arrival s index raid now rules draws with
      | error failure =>
        rw [harrival] at h
        cases h
      | ok outcome =>
        rw [harrival] at h
        obtain ⟨event, after⟩ := outcome
        cases h
        have hhere : (settledBefore now index s.raids)[index]? = some raid := by rw [settledBefore_here, hraid]
        have hfresh : raid.arrived = false := by
          simp only [Raid.due, Bool.and_eq_true, Bool.not_eq_true'] at hdue
          exact hdue.1
        obtain ⟨-, raid', -, hafter, hround⟩ := arrival_round hhere hraid hfresh harrival
        refine ⟨?_, ?_⟩
        · rw [afoot, afoot, hafter, settledBefore_struckRides, settledBefore_set]
          refine hround.entered ?_
          simp [entries]
        · rw [hafter, struckRides]
          split
          · rw [callOff, List.length_map, List.length_set]
          · rw [List.length_set]
    · rw [if_neg hdue] at h ⊢
      cases h
      exact ⟨(Round.refl _).entered (by simp [entries]), rfl⟩

theorem settleHomecoming_round (s : ConquisterState) (index : ℕ) (now : ℤ) :
    Round (afoot now index s) { emoji := entries (settleHomecoming s index now).1 }
      (afoot now (index + 1) (settleHomecoming s index now).2) ∧
      (settleHomecoming s index now).2.raids = s.raids := by
  have hstays (hunder : ∀ raid, s.raids[index]? = some raid → raid.over now = false) :
      Round (afoot now index s) 0 (afoot now (index + 1) s) := by
    rw [afoot, afoot, settledBefore_under now hunder]
    exact .refl _
  rw [settleHomecoming]
  split
  · rename_i hnone
    exact ⟨hstays fun raid hraid => (by rw [hnone] at hraid; cases hraid), rfl⟩
  · rename_i raid hraid
    split
    · rename_i hover
      have hhere : (settledBefore now index s.raids)[index]? = some raid := by rw [settledBefore_here, hraid]
      obtain ⟨hround, hraids⟩ := homecoming_round s hhere now
      refine ⟨?_, hraids⟩
      rw [afoot, afoot, hraids, settledBefore_over now hraid hover]
      refine hround.entered ?_
      simp [entries, RaidEvent.entry, homecoming]
    · rename_i hunder
      refine ⟨hstays fun other hother => ?_, rfl⟩
      rw [hraid] at hother
      cases hother
      simpa using hunder

theorem settleRide_round [Clock] {s t : ConquisterState} {index : ℕ} {now : ℤ} {rules : RaidRules}
    {draws : RaidDraws} {events : List RaidEvent} (h : settleRide s index now rules draws = .ok (events, t)) :
    Round (afoot now index s) ({ emoji := entries events } + rideStrike s index now rules draws)
      (afoot now (index + 1) t) ∧ t.raids.length = s.raids.length := by
  rw [settleRide] at h
  split at h
  · cases h
  · rename_i arrived there harrived
    cases h
    obtain ⟨harrival, hlength⟩ := settleArrival_round harrived
    obtain ⟨hhome, hraids⟩ := settleHomecoming_round there index now
    refine ⟨(harrival.trans hhome).entered ?_, by rw [hraids, hlength]⟩
    rw [entries_append, add_right_comm]
    congr 1

theorem settleRides_round [Clock] {now : ℤ} {rules : RaidRules} {draws : ℕ → RaidDraws} {count index : ℕ}
    {s t : ConquisterState} {events : List RaidEvent}
    (h : settleRides now rules draws count index s = .ok (events, t)) :
    Round (afoot now index s) ({ emoji := entries events } + strikes now rules draws count index s)
      (afoot now (index + count) t) ∧ t.raids.length = s.raids.length := by
  induction count generalizing index s events with
  | zero =>
    cases h
    exact ⟨(Round.refl _).entered (by simp [entries, strikes]), rfl⟩
  | succ count ih =>
    rw [settleRides] at h
    split at h
    · cases h
    · rename_i first settled hfirst
      split at h
      · cases h
      · rename_i others after hothers
        cases h
        obtain ⟨hone, hlength⟩ := settleRide_round hfirst
        obtain ⟨hrest, hlength'⟩ := ih hothers
        rw [Nat.add_right_comm] at hrest
        refine ⟨(hone.trans hrest).entered ?_, hlength'.trans hlength⟩
        rw [strikes, hfirst, entries_append]
        dsimp only
        rw [add_add_add_comm]
        congr 1

omit [SlotCodec] in
/-- A ride that is over is worth as little emptied as off the list. -/
theorem overRides_nothing (now : ℤ) (raids : List Raid) :
    (raids.filter fun raid => ¬ raid.over now).Sublist
        (raids.map fun raid => if raid.over now then raid.emptied else raid) ∧
      palleRiding (raids.filter fun raid => ¬ raid.over now) =
        palleRiding (raids.map fun raid => if raid.over now then raid.emptied else raid) ∧
      emojiRiding (raids.filter fun raid => ¬ raid.over now) =
        emojiRiding (raids.map fun raid => if raid.over now then raid.emptied else raid) := by
  induction raids with
  | nil => exact ⟨.slnil, rfl, rfl⟩
  | cons raid raids ih =>
    obtain ⟨hfewer, hpalle, hemoji⟩ := ih
    rw [List.map_cons, palleRiding_cons, emojiRiding_cons]
    cases hover : raid.over now with
    | true =>
      rw [List.filter_cons_of_neg (by simp [hover]), if_pos rfl, hpalle, hemoji]
      exact ⟨hfewer.cons _, (zero_add _).symm, (zero_add _).symm⟩
    | false =>
      rw [List.filter_cons_of_pos (by simp [hover]), if_neg Bool.false_ne_true, palleRiding_cons, emojiRiding_cons,
        hpalle, hemoji]
      exact ⟨hfewer.cons_cons raid, rfl, rfl⟩

/-- With every ride settled, those that are over leave the list. -/
theorem settled_round (now : ℤ) (s : ConquisterState) {count : ℕ} (h : s.raids.length ≤ count) :
    Round (afoot now count s) 0 { s with raids := s.raids.filter fun raid => ¬ raid.over now } := by
  have hall : settledBefore now count s.raids =
      s.raids.map fun raid => if raid.over now then raid.emptied else raid := by
    refine List.ext_getElem? fun place => ?_
    rw [settledBefore_get, List.getElem?_map]
    cases hraid : s.raids[place]? with
    | none => rfl
    | some raid =>
      have hlt : place < count := ((List.getElem?_eq_some_iff.mp hraid).1).trans_le h
      simp [hlt]
  obtain ⟨hfewer, hpalle, hemoji⟩ := overRides_nothing now s.raids
  rw [← hall] at hfewer hpalle hemoji
  refine .of ((Passage.edit [] (.ridesEnd (afoot now count s) _ hfewer) rfl rfl).entered ?_) rfl
  change Receipt.mk (palleRiding _ - palleRiding (settledBefore now count s.raids))
    (emojiRiding _ - emojiRiding (settledBefore now count s.raids)) 0 0 0 0 0 = _
  rw [hpalle, hemoji, sub_self, sub_self, Receipt.mk_zero]

/-- What one round brings into the game and takes out of it. -/
def roundEntry [Clock] (state : ConquisterState) (now : ℤ) (rules : RaidRules) (draws : DueDraws)
    (events : List RaidEvent) : Receipt :=
  { palle := eggs state now rules, emoji := entries events } + growthDue state now rules +
    strikes now rules draws.ride (beforeRides state now rules draws).2.raids.length 0
      (beforeRides state now rules draws).2

theorem growth_paid (now : ℤ) (rules : RaidRules) (children : List Child) (s : ConquisterState) :
    (growth now rules children s).paid = 0 ∧ (growth now rules children s).palle = 0 ∧
      (growth now rules children s).tended = 0 := by
  induction children generalizing s with
  | nil => exact ⟨rfl, rfl, rfl⟩
  | cons child children ih =>
    obtain ⟨hpaid, hpalle, htended⟩ := ih (growOne s now rules child).2.2
    rw [growth, Receipt.paid_add, Receipt.palle_add, Receipt.tended_add, hpaid, hpalle, htended, growthOf]
    split <;> exact ⟨rfl, rfl, rfl⟩

theorem strike_tended (s : ConquisterState) (victim : Str) (reset : Bool) : (strike s victim reset).tended = 0 := by
  cases reset <;> rfl

theorem strikes_tended [Clock] (now : ℤ) (rules : RaidRules) (draws : ℕ → RaidDraws) (count index : ℕ)
    (s : ConquisterState) : (strikes now rules draws count index s).tended = 0 := by
  induction count generalizing index s with
  | zero => rfl
  | succ count ih =>
    rw [strikes]
    split
    · rfl
    · rw [Receipt.tended_add, ih, rideStrike]
      split
      · rfl
      · split_ifs
        · split
          · rfl
          · exact strike_tended _ _ _
        · rfl

theorem roundEntry_tended [Clock] (s : ConquisterState) (now : ℤ) (rules : RaidRules) (draws : DueDraws)
    (events : List RaidEvent) : (roundEntry s now rules draws events).tended = 0 := by
  rw [roundEntry, Receipt.tended_add, Receipt.tended_add, strikes_tended, growthDue, (growth_paid _ _ _ _).2.2]

theorem raidDue_round [Clock] {s t : ConquisterState} {now : ℤ} {rules : RaidRules} {draws : DueDraws}
    {events : List RaidEvent} (h : raidDue s now rules draws = .ok (events, t)) :
    Round s (roundEntry s now rules draws events) t := by
  simp only [raidDue] at h
  split at h
  · cases h
  · rename_i settled after hsettled
    cases h
    have hbefore := Round.of (beforeRides_passage s now rules draws)
      (by rw [Receipt.paid_add, growthDue, (growth_paid _ _ _ _).1]; rfl)
    obtain ⟨hrides, hlength⟩ := settleRides_round hsettled
    rw [afoot_zero, Nat.zero_add] at hrides
    refine ((hbefore.trans hrides).trans (settled_round now after hlength.le)).entered ?_
    rw [roundEntry, entries_append, add_zero, add_add_add_comm, ← add_assoc]
    congr 2
    ext <;> simp

end NorelecBot
