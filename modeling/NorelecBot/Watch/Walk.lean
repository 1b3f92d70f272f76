import NorelecBot.Voyages

/-! # Who comes home as the keeper walks

Before a ☢️ lands on a house a copy of the file is kept; a copy that cannot be kept stops
the walk there, and with it the round. Whoever was passed by then and was over is home,
as far as anybody was told.
-/

namespace NorelecBot.Watch
open Lib

section
variable [SlotCodec]

def Returned (event : RaidEvent) : Bool := event.kind = .returned

/-- The ride at a place brings a ☢️ to a house now. -/
def nukeAt (state : ConquisterState) (index : ℕ) (now : ℤ) : Bool :=
  match state.raids[index]? with
  | none => false
  | some raid => raid.due now && raid.throws && isPower raid.giftEmoji .nuke

/-- The ride at a place of the list, when it is over by now. -/
def homeAt (state : ConquisterState) (index : ℕ) (now : ℤ) : List Raid :=
  match state.raids[index]? with
  | none => []
  | some raid => if raid.over now then [raid] else []

/-- Whether a ride is over once its turn has come: it has been there and the way back is behind it, or it brings a ☢️
that falls on its own raider. -/
def homeAtTurn (state : ConquisterState) (index : ℕ) (now : ℤ) (rules : RaidRules) (draws : RaidDraws) : Bool :=
  match state.raids[index]? with
  | none => false
  | some raid =>
    (raid.back ≤ now && (raid.arrived || raid.arrive ≤ now)) ||
      (nukeAt state index now && struck raid (sentBack state raid rules draws.mailbox) = raid.raider)

section
variable [Clock] (copies : ℕ → Bool) (now : ℤ) (rules : RaidRules) (draws : ℕ → RaidDraws)

/-- The rides that come home as the keeper walks the list, up to where he is stopped. -/
def comesHome : ℕ → ℕ → ConquisterState → List Raid
  | 0, _, _ => []
  | count + 1, index, state =>
    if nukeAt state index now && !copies index then []
    else
      match settleArrival state index now rules (draws index) with
      | .error _ => []
      | .ok (_, there) => homeAt there index now ++ comesHome count (index + 1) (settleHomecoming there index now).2

/-- Whether he walks to the end of the list. -/
def walksOn : ℕ → ℕ → ConquisterState → Bool
  | 0, _, _ => true
  | count + 1, index, state =>
    !(nukeAt state index now && !copies index) &&
      match settleRide state index now rules (draws index) with
      | .error _ => false
      | .ok (_, settled) => walksOn count (index + 1) settled

def bringsHome : ℕ → ℕ → ConquisterState → Bool
  | 0, _, _ => false
  | count + 1, index, state =>
    !(nukeAt state index now && !copies index) &&
      match settleRide state index now rules (draws index) with
      | .error _ => false
      | .ok (_, settled) => homeAtTurn state index now rules (draws index) || bringsHome count (index + 1) settled

end

omit [SlotCodec] in
theorem isPower_nuke {emoji : Str} (h : isPower emoji .nuke = true) :
    isPower emoji .poo = false ∧ isPower emoji .bomb = false ∧ isPower emoji .seed = false := by
  have hplain : withoutTone (withoutVariation emoji) = withoutTone (withoutVariation Power.nuke.emoji) := by
    simp only [isPower, Power.nuke, List.any_nil, Bool.or_false] at h
    exact of_decide_eq_true h
  simp only [isPower, hplain]
  decide +kernel

theorem land_nuke {s : ConquisterState} {thrown thrower victim : Str} {site : Whereabouts} {now : ℤ}
    {rules : RaidRules} {draws : LandDraws} (h : isPower thrown .nuke = true) :
    (land s thrown thrower victim site now rules draws).1.reset = true := by
  obtain ⟨hpoo, hbomb, -⟩ := isPower_nuke h
  simp only [land, hpoo, hbomb, h, Bool.false_eq_true, if_false, if_true]

omit [SlotCodec] in
theorem throws_something {raid : Raid} (h : raid.throws = true) : raid.giftEmoji ≠ [] := by
  intro hnone
  have hnothing : isThrown [] = false := by decide +kernel
  rw [Raid.throws, hnone, hnothing] at h
  cases h

theorem deliver_nuke {s : ConquisterState} {index : ℕ} {raid : Raid} {event : RaidEvent} {now : ℤ}
    {rules : RaidRules} {draws : RaidDraws} (hthrows : raid.throws = true)
    (hnuke : isPower raid.giftEmoji .nuke = true) :
    (deliver s index raid event now rules draws).1.reset = true := by
  rw [deliver, if_neg (throws_something hthrows), deliverEmoji]
  simp only [(isPower_nuke hnuke).2.2, hthrows, Bool.and_false, Bool.false_and, Bool.false_eq_true, if_false, if_true]
  exact land_nuke hnuke

/-- A ☢️ starts somebody over wherever it lands. -/
theorem arrival_nuke [Clock] {s t : ConquisterState} {index : ℕ} {raid : Raid} {now : ℤ} {rules : RaidRules}
    {draws : RaidDraws} {event : RaidEvent} (h : arrival s index raid now rules draws = .ok (event, t))
    (hthrows : raid.throws = true) (hnuke : isPower raid.giftEmoji .nuke = true) : event.reset = true := by
  have hbrings : raid.brings = true := by
    rw [Raid.brings, Bool.or_eq_true, decide_eq_true_eq, decide_eq_true_eq]
    exact .inr (throws_something hthrows)
  rw [arrival] at h
  simp only [hbrings, if_true] at h
  obtain ⟨rfl, rfl⟩ := Prod.mk.inj (Except.ok.inj h)
  obtain ⟨-, -, hsame, -⟩ := noteChanges_keeps (deliver _ index raid _ now rules draws).1 raid
    (arrivalEvent (onRide s index Raid.reached) raid now) (deliver _ index raid _ now rules draws).2
  rw [hsame]
  exact deliver_nuke hthrows hnuke

omit [SlotCodec] in
theorem over_calledOff (raid : Raid) (now : ℤ) : (raid.calledOff now).over now = true := by
  simp [Raid.calledOff, Raid.over]

omit [SlotCodec] in
theorem getElem?_struckRides (raids : List Raid) (victim : Str) (reset : Bool) (now : ℤ) (place : ℕ) :
    (struckRides raids victim reset now)[place]? =
      raids[place]?.map fun raid => if reset = true ∧ raid.raider = victim then raid.calledOff now else raid := by
  rw [struckRides]
  cases reset with
  | false => simp
  | true => simp [callOff]

/-- What stands at the place of a ride that has got there. -/
theorem settleArrival_due [Clock] {s t : ConquisterState} {index : ℕ} {raid : Raid} {now : ℤ} {rules : RaidRules}
    {draws : RaidDraws} {events : List RaidEvent} (h : settleArrival s index now rules draws = .ok (events, t))
    (hraid : s.raids[index]? = some raid) (hdue : raid.due now = true) :
    ∃ raid' victim reset, raid.Settled raid' ∧ t.raids = struckRides (s.raids.set index raid') victim reset now ∧
      (reset = true ↔ nukeAt s index now = true) ∧
        (reset = true → victim = struck raid (sentBack s raid rules draws.mailbox)) ∧ events.filter Returned = [] := by
  rw [settleArrival, hraid] at h
  dsimp only at h
  rw [if_pos hdue] at h
  cases harrival : arrival s index raid now rules draws with
  | error failure =>
    rw [harrival] at h
    cases h
  | ok outcome =>
    rw [harrival] at h
    cases h
    have hfresh : raid.arrived = false := by
      simp only [Raid.due, Bool.and_eq_true, Bool.not_eq_true'] at hdue
      exact hdue.1
    obtain ⟨hkind, raid', hsettled, hafter, -⟩ := arrival_round hraid hraid hfresh harrival
    refine ⟨raid', _, _, hsettled, hafter, ?_, ?_, ?_⟩
    · rw [nukeAt, hraid]
      simp only [hdue, Bool.true_and, Bool.and_eq_true]
      constructor
      · intro hreset
        obtain ⟨hthrows, hnuke, -⟩ := arrival_reset hraid hfresh harrival hreset
        exact ⟨hthrows, hnuke⟩
      · rintro ⟨hthrows, hnuke⟩
        exact arrival_nuke harrival hthrows hnuke
    · intro hreset
      rw [(arrival_reset hraid hfresh harrival hreset).2.2]
    · rcases hkind with hkind | hkind <;> simp [Returned, hkind]

variable [Clock] {copies : ℕ → Bool} {now : ℤ} {rules : RaidRules}

/-- Whether somebody is home after his turn shows before it. -/
theorem homeAt_ne_nil {s there : ConquisterState} {index : ℕ} {draws : RaidDraws} {events : List RaidEvent}
    (h : settleArrival s index now rules draws = .ok (events, there)) :
    homeAt there index now ≠ [] ↔ homeAtTurn s index now rules draws = true := by
  cases hraid : s.raids[index]? with
  | none =>
    rw [settleArrival, hraid] at h
    cases h
    simp [homeAt, homeAtTurn, hraid]
  | some raid =>
    by_cases hdue : raid.due now = true
    · obtain ⟨raid', victim, reset, hsettled, hafter, hnuke, hvictim, -⟩ := settleArrival_due h hraid hdue
      have hlt := (List.getElem?_eq_some_iff.mp hraid).1
      have hthere : there.raids[index]? = some (if reset = true ∧ raid'.raider = victim then raid'.calledOff now else raid') := by
        rw [hafter, getElem?_struckRides, List.getElem?_set_self hlt]
        rfl
      have harrive : raid.arrive ≤ now := by
        simp only [Raid.due, Bool.and_eq_true, decide_eq_true_eq] at hdue
        exact hdue.2
      rw [homeAt, hthere, homeAtTurn, hraid]
      simp only [harrive, decide_true, Bool.or_true, Bool.and_true, Bool.or_eq_true, Bool.and_eq_true, decide_eq_true_eq]
      by_cases hown : reset = true ∧ raid'.raider = victim
      · have hstruck : struck raid (sentBack s raid rules draws.mailbox) = raid.raider := by
          rw [← hvictim hown.1, ← hown.2, hsettled.raider]
        simp [hown, over_calledOff, hnuke.mp hown.1, hstruck]
      · have hover : raid'.over now = decide (raid.back ≤ now) := by
          rw [Raid.over, hsettled.arrived, hsettled.back, Bool.true_and]
        have hspared : ¬ (nukeAt s index now = true ∧ struck raid (sentBack s raid rules draws.mailbox) = raid.raider) := by
          rintro ⟨hlands, hstruck⟩
          have hreset := hnuke.mpr hlands
          exact hown ⟨hreset, by rw [hvictim hreset, hstruck, hsettled.raider]⟩
        rw [if_neg hown]
        by_cases hback : raid.back ≤ now
        · simp [hover, hback]
        · simp [hover, hback, hspared]
    · rw [settleArrival, hraid] at h
      dsimp only at h
      rw [if_neg hdue] at h
      cases h
      have hlands : nukeAt s index now = false := by simp [nukeAt, hraid, hdue]
      rw [homeAt, homeAtTurn, hraid, hlands]
      dsimp only
      have hover : raid.over now = (decide (raid.back ≤ now) && (raid.arrived || decide (raid.arrive ≤ now))) := by
        rw [Raid.due] at hdue
        rw [Raid.over]
        cases harrived : raid.arrived with
        | true => simp
        | false =>
          have hlate : now < raid.arrive := by simpa [harrived] using hdue
          simp [not_le.mpr hlate]
      rw [← hover]
      by_cases hhome : raid.over now = true <;> simp [hhome]

/-- Nobody who is over is under way again after another's turn, and whoever was home at his turn is over. -/
theorem settleRide_over {s t : ConquisterState} {index : ℕ} {draws : RaidDraws} {events : List RaidEvent}
    (h : settleRide s index now rules draws = .ok (events, t)) :
    t.raids.length = s.raids.length ∧
      ((∃ raid ∈ s.raids, raid.over now = true) ∨ homeAtTurn s index now rules draws = true →
        ∃ raid ∈ t.raids, raid.over now = true) := by
  rw [settleRide] at h
  cases harrival : settleArrival s index now rules draws with
  | error failure =>
    rw [harrival] at h
    cases h
  | ok outcome =>
    obtain ⟨arrived, there⟩ := outcome
    rw [harrival] at h
    cases h
    rw [(settleHomecoming_round there index now).2]
    constructor
    · cases hraid : s.raids[index]? with
      | none =>
        rw [settleArrival, hraid] at harrival
        cases harrival
        rfl
      | some raid =>
        by_cases hdue : raid.due now = true
        · obtain ⟨raid', victim, reset, -, hafter, -⟩ := settleArrival_due harrival hraid hdue
          rw [hafter, struckRides, callOff]
          cases reset <;> simp
        · rw [settleArrival, hraid] at harrival
          dsimp only at harrival
          rw [if_neg hdue] at harrival
          cases harrival
          rfl
    · rintro (⟨raid, hmem, hover⟩ | hturn)
      · obtain ⟨place, hplace⟩ := List.mem_iff_getElem?.mp hmem
        cases hraid : s.raids[index]? with
        | none =>
          rw [settleArrival, hraid] at harrival
          cases harrival
          exact ⟨raid, hmem, hover⟩
        | some riding =>
          by_cases hdue : riding.due now = true
          · obtain ⟨raid', victim, reset, -, hafter, -⟩ := settleArrival_due harrival hraid hdue
            have hother : index ≠ place := by
              rintro rfl
              rw [hraid, Option.some.injEq] at hplace
              rw [hplace, Raid.due] at hdue
              rw [Raid.over] at hover
              simp only [Bool.and_eq_true] at hdue hover
              rw [hover.1] at hdue
              simp at hdue
            have hthere : there.raids[place]? =
                some (if reset = true ∧ raid.raider = victim then raid.calledOff now else raid) := by
              rw [hafter, getElem?_struckRides, List.getElem?_set_ne hother, hplace]
              rfl
            refine ⟨_, List.mem_of_getElem? hthere, ?_⟩
            by_cases hown : reset = true ∧ raid.raider = victim
            · rw [if_pos hown, over_calledOff]
            · rw [if_neg hown, hover]
          · rw [settleArrival, hraid] at harrival
            dsimp only at harrival
            rw [if_neg hdue] at harrival
            cases harrival
            exact ⟨raid, hmem, hover⟩
      · have hhome := (homeAt_ne_nil harrival).mpr hturn
        rw [homeAt] at hhome
        cases hraid : there.raids[index]? with
        | none => simp [hraid] at hhome
        | some raid =>
          by_cases hover : raid.over now = true
          · exact ⟨raid, List.mem_of_getElem? hraid, hover⟩
          · simp [hraid, hover] at hhome

theorem settleRides_over {draws : ℕ → RaidDraws} {count index : ℕ} {s t : ConquisterState} {events : List RaidEvent}
    (h : settleRides now rules draws count index s = .ok (events, t)) :
    t.raids.length = s.raids.length ∧
      ((∃ raid ∈ s.raids, raid.over now = true) ∨ bringsHome copies now rules draws count index s = true →
        ∃ raid ∈ t.raids, raid.over now = true) := by
  induction count generalizing index s events with
  | zero =>
    cases h
    simp [bringsHome]
  | succ count ih =>
    rw [settleRides] at h
    rw [bringsHome]
    cases hfirst : settleRide s index now rules (draws index) with
    | error failure =>
      rw [hfirst] at h
      cases h
    | ok outcome =>
      obtain ⟨first, settled⟩ := outcome
      rw [hfirst] at h
      dsimp only at h ⊢
      cases hrest : settleRides now rules draws count (index + 1) settled with
      | error failure =>
        rw [hrest] at h
        cases h
      | ok outcome =>
        rw [hrest] at h
        cases h
        obtain ⟨hlength, hover⟩ := settleRide_over hfirst
        obtain ⟨hlength', hover'⟩ := ih hrest
        refine ⟨hlength'.trans hlength, fun hhome => hover' ?_⟩
        rcases hhome with hthere | hturn
        · exact .inl (hover (.inl hthere))
        · rw [Bool.and_eq_true, Bool.or_eq_true] at hturn
          rcases hturn.2 with hnow | hlater
          · exact .inl (hover (.inr hnow))
          · exact .inr hlater

theorem comesHome_ne_nil {draws : ℕ → RaidDraws} {count index : ℕ} {s : ConquisterState} :
    comesHome copies now rules draws count index s ≠ [] ↔ bringsHome copies now rules draws count index s = true := by
  induction count generalizing index s with
  | zero => simp [comesHome, bringsHome]
  | succ count ih =>
    rw [comesHome, bringsHome, settleRide]
    by_cases hstopped : (nukeAt s index now && !copies index) = true
    · simp [hstopped]
    · rw [if_neg hstopped]
      cases harrival : settleArrival s index now rules (draws index) with
      | error failure => simp
      | ok outcome =>
        have hturn := homeAt_ne_nil harrival
        have hrest := @ih (index + 1) (settleHomecoming outcome.2 index now).2
        simp only [Bool.not_eq_true] at hstopped
        simp only [hstopped, Bool.not_false, Bool.true_and, Bool.or_eq_true, ← hturn, ← hrest, ne_eq,
          List.append_eq_nil_iff]
        tauto

/-- Where no way back is over yet and no ☢️ lands, nobody comes home. -/
theorem bringsHome_quiet {draws : ℕ → RaidDraws} {count index : ℕ} {s : ConquisterState}
    (h : ∀ raid ∈ s.raids, now < raid.back ∧
      (raid.due now = true → ¬ (raid.throws = true ∧ isPower raid.giftEmoji .nuke = true))) :
    bringsHome copies now rules draws count index s = false := by
  induction count generalizing index s with
  | zero => rfl
  | succ count ih =>
    have hlands : nukeAt s index now = false := by
      rw [nukeAt]
      cases hraid : s.raids[index]? with
      | none => rfl
      | some raid =>
        have hquiet := (h raid (List.mem_of_getElem? hraid)).2
        rw [Bool.eq_false_iff]
        simp only [ne_eq, Bool.and_eq_true, and_assoc]
        exact fun hall => hquiet hall.1 hall.2
    have hturn : homeAtTurn s index now rules (draws index) = false := by
      rw [homeAtTurn, hlands]
      cases hraid : s.raids[index]? with
      | none => rfl
      | some raid => simp [not_le.mpr (h raid (List.mem_of_getElem? hraid)).1]
    rw [bringsHome, settleRide, hlands, hturn]
    cases harrival : settleArrival s index now rules (draws index) with
    | error failure => rfl
    | ok outcome =>
      dsimp only
      rw [Bool.false_or, ih, Bool.and_false]
      rw [(settleHomecoming_round outcome.2 index now).2]
      cases hraid : s.raids[index]? with
      | none =>
        rw [settleArrival, hraid] at harrival
        cases harrival
        exact h
      | some raid =>
        by_cases hdue : raid.due now = true
        · obtain ⟨raid', victim, reset, hsettled, hafter, hnuke, -⟩ := settleArrival_due harrival hraid hdue
          have hspared : reset = false := by
            rw [Bool.eq_false_iff, ne_eq, hnuke, hlands]
            exact Bool.false_ne_true
          rw [hafter, hspared, struckRides, if_neg Bool.false_ne_true]
          intro other hother
          rcases List.mem_or_eq_of_mem_set hother with hold | rfl
          · exact h other hold
          · refine ⟨hsettled.back ▸ (h raid (List.mem_of_getElem? hraid)).1, fun hdue' => ?_⟩
            rw [Raid.due, hsettled.arrived] at hdue'
            cases hdue'
        · rw [settleArrival, hraid] at harrival
          dsimp only at harrival
          rw [if_neg hdue] at harrival
          cases harrival
          exact h

theorem settleRides_of_walksOn {draws : ℕ → RaidDraws} {count index : ℕ} {s : ConquisterState}
    (h : walksOn copies now rules draws count index s = true) :
    ∃ events t, settleRides now rules draws count index s = .ok (events, t) := by
  induction count generalizing index s with
  | zero => exact ⟨[], s, rfl⟩
  | succ count ih =>
    rw [walksOn, Bool.and_eq_true] at h
    rw [settleRides]
    cases hfirst : settleRide s index now rules (draws index) with
    | error failure =>
      rw [hfirst] at h
      cases h.2
    | ok outcome =>
      rw [hfirst] at h
      obtain ⟨others, after, hrest⟩ := ih h.2
      dsimp only
      rw [hrest]
      exact ⟨_, after, rfl⟩

theorem settleArrival_returned {s there : ConquisterState} {index : ℕ} {draws : RaidDraws} {arrived : List RaidEvent}
    (h : settleArrival s index now rules draws = .ok (arrived, there)) : arrived.filter Returned = [] ∧ pairs there = pairs s := by
  cases hraid : s.raids[index]? with
  | none =>
    rw [settleArrival, hraid] at h
    cases h
    exact ⟨rfl, rfl⟩
  | some raid =>
    by_cases hdue : raid.due now = true
    · obtain ⟨raid', victim, reset, hsettled, hafter, -, -, hkind⟩ := settleArrival_due h hraid hdue
      refine ⟨hkind, ?_⟩
      rw [pairs, pairs, hafter, map_struckRides _ fun _ _ => rfl, map_set_same hraid]
      rw [hsettled.raider, hsettled.target]
    · rw [settleArrival, hraid] at h
      dsimp only at h
      rw [if_neg hdue] at h
      cases h
      exact ⟨rfl, rfl⟩

omit [Clock] in
theorem settleHomecoming_said (s : ConquisterState) (index : ℕ) (now : ℤ) :
    ((settleHomecoming s index now).1.filter Returned).map (fun event => ((pairs s).getD index ([], []), event.loot)) =
      (homeAt s index now).map fun raid => ((raid.raider, raid.target), raid.loot) := by
  rw [settleHomecoming, homeAt]
  cases hraid : s.raids[index]? with
  | none => rfl
  | some raid =>
    dsimp only
    have hpair : (pairs s).getD index ([], []) = (raid.raider, raid.target) := by
      rw [List.getD_eq_getElem?_getD, pairs, List.getElem?_map, hraid]
      rfl
    by_cases hover : raid.over now = true
    · rw [if_pos hover, if_pos hover, hpair]
      rfl
    · rw [if_neg hover, if_neg hover]
      rfl

/-- A walk to the end says of each who comes home, at his place on the list, what he brings. -/
theorem comesHome_said {draws : ℕ → RaidDraws} {count index : ℕ} {s : ConquisterState}
    (h : walksOn copies now rules draws count index s = true) :
    ((roundEvents now rules draws count index s).filter fun said => Returned said.2).map
        (fun said => ((pairs s).getD said.1 ([], []), said.2.loot)) =
      (comesHome copies now rules draws count index s).map fun raid => ((raid.raider, raid.target), raid.loot) := by
  induction count generalizing index s with
  | zero => rfl
  | succ count ih =>
    rw [walksOn, Bool.and_eq_true, Bool.not_eq_true'] at h
    rw [roundEvents, comesHome, h.1, if_neg Bool.false_ne_true]
    obtain ⟨-, hrest⟩ := h
    rw [settleRide] at hrest ⊢
    cases harrival : settleArrival s index now rules (draws index) with
    | error failure =>
      rw [harrival] at hrest
      cases hrest
    | ok outcome =>
      obtain ⟨arrived, there⟩ := outcome
      rw [harrival] at hrest
      dsimp only at hrest ⊢
      obtain ⟨hquiet, hsame⟩ := settleArrival_returned harrival
      have hsettled : pairs (settleHomecoming there index now).2 = pairs s := by
        rw [pairs, (settleHomecoming_round there index now).2, ← pairs, hsame]
      have hlater := ih hrest
      rw [hsettled] at hlater
      have hnow := settleHomecoming_said there index now
      rw [hsame] at hnow
      have hplace : ((arrived ++ (settleHomecoming there index now).1).map fun event => (index, event)).filter
          (fun said => Returned said.2) =
            ((settleHomecoming there index now).1.filter Returned).map fun event => (index, event) := by
        rw [List.filter_map]
        have hevents : (arrived ++ (settleHomecoming there index now).1).filter
            ((fun said : ℕ × RaidEvent => Returned said.2) ∘ fun event => (index, event)) =
              (settleHomecoming there index now).1.filter Returned := by
          rw [List.filter_append]
          change arrived.filter Returned ++ _ = _
          rw [hquiet]
          rfl
        rw [hevents]
      rw [List.filter_append, hplace, List.map_append, hlater, List.map_map, List.map_append, ← hnow]
      rfl

/-- Whoever is said to be home is named, and so is whoever he rode to. -/
theorem roundEvents_named {draws : ℕ → RaidDraws} {count index : ℕ} {s : ConquisterState} {said : ℕ × RaidEvent}
    (hsaid : said ∈ roundEvents now rules draws count index s) (hhome : Returned said.2 = true) :
    ∃ raider target, (pairs s)[said.1]? = some (raider, target) ∧
      said.2.raider = displayName s raider ∧ said.2.target = displayName s target := by
  induction count generalizing index s with
  | zero => cases hsaid
  | succ count ih =>
    rw [roundEvents, settleRide] at hsaid
    cases harrival : settleArrival s index now rules (draws index) with
    | error failure =>
      rw [harrival] at hsaid
      cases hsaid
    | ok outcome =>
      obtain ⟨arrived, there⟩ := outcome
      rw [harrival] at hsaid
      dsimp only at hsaid
      obtain ⟨hquiet, hsame⟩ := settleArrival_returned harrival
      have hsettle : settleRide s index now rules (draws index) =
          .ok (arrived ++ (settleHomecoming there index now).1, (settleHomecoming there index now).2) := by
        rw [settleRide, harrival]
      have hnames : (settleHomecoming there index now).2.displayNames = s.displayNames :=
        congrArg Register.displayNames (settleRide_books hsettle).register
      rcases List.mem_append.mp hsaid with hnow | hlater
      · obtain ⟨event, hevent, rfl⟩ := List.mem_map.mp hnow
        rcases List.mem_append.mp hevent with hin | hin
        · have hnone : event ∈ arrived.filter Returned := List.mem_filter.mpr ⟨hin, hhome⟩
          rw [hquiet] at hnone
          cases hnone
        · rw [settleHomecoming] at hin hnames
          cases hraid : there.raids[index]? with
          | none =>
            rw [hraid] at hin
            cases hin
          | some raid =>
            rw [hraid] at hin hnames
            dsimp only at hin hnames
            by_cases hover : raid.over now = true
            · rw [if_pos hover] at hin hnames
              rw [List.mem_singleton.mp hin]
              refine ⟨raid.raider, raid.target, ?_, ?_, ?_⟩
              · rw [← hsame, pairs, List.getElem?_map, hraid]
                rfl
              · rw [displayName, ← hnames]
                rfl
              · rw [displayName, ← hnames]
                rfl
            · rw [if_neg hover] at hin
              cases hin
      · obtain ⟨raider, target, hpair, hraider, htarget⟩ := ih hlater
        rw [pairs, (settleHomecoming_round there index now).2, ← pairs, hsame] at hpair
        rw [displayName, hnames] at hraider htarget
        exact ⟨raider, target, hpair, hraider, htarget⟩

end

end NorelecBot.Watch
