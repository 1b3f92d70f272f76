import NorelecBot.Onward
import NorelecBot.Books
import NorelecBot.Lib.Streak

/-! # How a 🎈 wears

Every attempt it holds off wears a 🎈, in the place and at home. One that pops is
fresh again, and so is that of whoever is kicked out past it or starts over.
-/

namespace NorelecBot
open Lib

/-- What happens to the 🎈 of somebody. -/
inductive Wear where
  /-- It held; what the next attempt was told about its chance. -/
  | held (player : Str) (nextChance : ℤ)
  | popped (player : Str)
  /-- He was kicked out, by nobody who slipped past it or came in for the first time. -/
  | kicked (player : Str)
  | startedOver (player : Str)
  | wiped
  /-- He was merged into another player. -/
  | merged (player : Str)
  deriving DecidableEq, Repr

namespace Wear

def effect : Wear → Str → Effect
  | .held player _, key => if key = player then .counts else .neither
  | .popped player, key => if key = player then .clears else .neither
  | .kicked player, key => if key = player then .clears else .neither
  | .startedOver player, key => if key = player then .clears else .neither
  | .wiped, _ => .clears
  | .merged player, key => if key = player then .clears else .neither

/-- It holds three times at most, and the chance told is that of the next attempt. -/
def Fair (count : Str → ℤ) : Wear → Prop
  | .held player nextChance => count player + 1 ≤ 3 ∧ nextChance = 25 * (count player + 1 + 1)
  | _ => True

end Wear

/-- The table of 🎈 follows what happens to them. -/
abbrev Wears (s : ConquisterState) (log : List Wear) (t : ConquisterState) : Prop :=
  Ticks Wear.effect Wear.Fair (counter s.balloons) log (counter t.balloons)

namespace Wears
variable {s t : ConquisterState}

theorem unworn (h : t.balloons = s.balloons) : Wears s [] t := by
  rw [Wears, h]
  exact .nil _

/-- One 🎈 is fresh again. -/
theorem fresh {player : Str} {wear : Wear} (h : t.balloons = s.balloons.erase player)
    (hfair : ∀ count, wear.Fair count)
    (heffect : ∀ key, wear.effect key = if key = player then Effect.clears else .neither) : Wears s [wear] t := by
  apply Ticks.single (hfair _)
  funext key
  rw [h, counter_erase, tick, heffect]
  split <;> rfl

end Wears

section
variable [SlotCodec]

/-- What an attempt on somebody comes to, as it is told. -/
def attemptLog (player : Str) (roll : BalloonRoll) (after : ConquisterState) : List Wear :=
  match roll with
  | .held => [.held player (balloonPopChance after player)]
  | .popped => [.popped player]
  | .none => []

omit [SlotCodec] in
theorem balloonPopChance_eq (s : ConquisterState) (player : Str) :
    balloonPopChance s player = 25 * (counter s.balloons player + 1) := by
  rw [balloonPopChance]
  apply Int.tdiv_eq_of_eq_mul_right
  · decide
  · rw [balloonAttempts]
    push_cast
    omega

theorem balloonAttempt_wears (s : ConquisterState) (player : Str) (site : Whereabouts) (now : ℤ) (draw : ℕ) :
    Wears s (attemptLog player (balloonAttempt s player site now draw).1 (balloonAttempt s player site now draw).2)
      (balloonAttempt s player site now draw).2 := by
  rw [balloonAttempt]
  split_ifs with hthere hpops
  · exact .fresh rfl (fun _ => trivial) fun _ => rfl
  · have hdraw : randomIndex draw balloonAttempts < balloonAttempts := randomIndex_lt draw (by decide)
    apply Ticks.single
    · rw [Wear.Fair, balloonPopChance_eq, counter_set_self]
      rw [balloonAttempts] at hdraw hpops
      exact ⟨by omega, rfl⟩
    · funext key
      rw [counter_set, tick, Wear.effect]
      split
      · rename_i his
        rw [his]
      · rfl
  · exact .unworn rfl

/-- What somebody who comes for the place does to the holder's 🎈. -/
def claimLog (result : ClaimResult) : List Wear :=
  match result.status with
  | .defended => [.held result.previousKey result.nextChance]
  | .taken =>
    (if result.balloonPopped then [.popped result.previousKey] else []) ++
      if result.previousKey ≠ [] ∧ result.sneaked = false ∧ result.firstEntry = false
        then [.kicked result.previousKey] else []
  | _ => []

omit [SlotCodec] in
theorem claimLog_taken {result : ClaimResult} (h : result.status = .taken) :
    claimLog result = (if result.balloonPopped then [.popped result.previousKey] else []) ++
      if result.previousKey ≠ [] ∧ result.sneaked = false ∧ result.firstEntry = false
        then [.kicked result.previousKey] else [] := by
  rw [claimLog, h]

/-- Coming in adds nothing to it. -/
theorem claimLog_enter (s : ConquisterState) (outcome : ClaimResult) (userId : ℤ) (username : Str) (now : ℤ)
    (rules : ClaimRules) : claimLog (enter s outcome userId username now rules).1 = claimLog outcome := rfl

theorem kick_wears {s t : ConquisterState} {hold : Holder} {userId : ℤ} {username : Str} {now : ℤ}
    {rules : ClaimRules} {draws : ClaimDraws} {result : ClaimResult} (hnamed : hold.username ≠ [])
    (h : kick s hold userId username now rules draws = .ok (result, t)) : Wears s (claimLog result) t := by
  rw [kick] at h
  dsimp only at h
  generalize hsneaked : (!(newcomer s username now && _) && _ && _ && _ : Bool) = sneaked at h
  generalize hfirst : (newcomer s username now && decide (counter s.entered username = 0) : Bool) = first at h
  generalize hattempt : (if (sneaked || first) = true then (BalloonRoll.none, s)
    else balloonAttempt s hold.username .conquister now draws.balloon) = attempt at h
  have hwears : Wears s (attemptLog hold.username attempt.1 attempt.2) attempt.2 := by
    rw [← hattempt]
    split
    · exact .unworn rfl
    · exact balloonAttempt_wears s _ _ now _
  split at h
  · rename_i hheld
    cases h
    rw [hheld] at hwears
    have hcooled : Wears attempt.2 [] (if penalty attempt.2 username rules > 0 then
        { attempt.2 with cooldowns := attempt.2.cooldowns.set username (now + penalty attempt.2 username rules) }
      else attempt.2) := .unworn (by split <;> rfl)
    exact hwears.append hcooled
  · rename_i hheld
    generalize hworn : (if (sneaked || first) = true then attempt.2
      else { attempt.2 with balloons := attempt.2.balloons.erase hold.username }) = worn at h
    split at h
    · cases h
    · rename_i settled paid hsettled
      rw [Except.ok.injEq, Prod.ext_iff] at h
      obtain ⟨rfl, rfl⟩ := h
      have hpopped : attemptLog hold.username attempt.1 attempt.2 =
          if decide (attempt.1 = .popped) = true then [.popped hold.username] else [] := by
        cases hroll : attempt.1 with
        | held => exact absurd hroll hheld
        | popped => simp [attemptLog]
        | none => simp [attemptLog]
      have hkicked : Wears attempt.2
          (if hold.username ≠ [] ∧ sneaked = false ∧ first = false then [.kicked hold.username] else []) worn := by
        rw [← hworn]
        by_cases hslips : (sneaked || first) = true
        · rw [if_pos hslips, if_neg]
          · exact .unworn rfl
          · rintro ⟨-, rfl, rfl⟩
            cases hslips
        · rw [if_neg hslips, if_pos]
          · exact .fresh rfl (fun _ => trivial) fun _ => rfl
          · rw [Bool.not_eq_true, Bool.or_eq_false_iff] at hslips
            exact ⟨hnamed, hslips⟩
      have hin (outcome : ClaimResult) : (enter paid outcome userId username now rules).2.balloons = worn.balloons :=
        ((settleHold_aside hsettled).trans (enter_aside paid outcome userId username now rules)).balloons
      rw [claimLog_enter, claimLog_taken rfl, ← List.append_nil (_ ++ _)]
      rw [hpopped] at hwears
      exact (hwears.append hkicked).append (Wears.unworn (hin _))

theorem claimFree_wears {s t : ConquisterState} {userId : ℤ} {username : Str} {now : ℤ} {rules : ClaimRules}
    {draws : ClaimDraws} {result : ClaimResult}
    (h : claimFree s userId username now rules draws = .ok (result, t)) : Wears s (claimLog result) t := by
  rw [claimFree] at h
  split at h
  · cases h
    exact .unworn rfl
  · split at h
    · cases h
      exact .unworn rfl
    · split at h
      · rw [Except.ok.injEq, Prod.ext_iff] at h
        obtain ⟨rfl, rfl⟩ := h
        exact .unworn (enter_aside s {} userId username now rules).balloons
      · rename_i hold hhold
        apply kick_wears _ h
        have hnamed := (Option.filter_eq_some_iff.mp hhold).2
        simpa using hnamed

theorem conquisterClaim_wears {s t : ConquisterState} {userId : ℤ} {username : Str} {now : ℤ} {rules : ClaimRules}
    {draws : ClaimDraws} {result : ClaimResult}
    (h : conquisterClaim s userId username now rules draws = .ok (result, t)) : Wears s (claimLog result) t := by
  have hknown : Wears s [] (rememberPlatform s username userId) := by
    apply Wears.unworn
    rw [rememberPlatform, rememberIrc, rememberTelegram]
    split_ifs <;> rfl
  simp only [conquisterClaim] at h
  split at h
  · cases h
    exact hknown
  · split at h
    · cases h
      exact hknown
    · have hlapsed : Wears (rememberPlatform s username userId) [] { rememberPlatform s username userId with
          cooldowns := (rememberPlatform s username userId).cooldowns.erase username } := .unworn rfl
      exact (hknown.append hlapsed).append (claimFree_wears h)

/-- What an arrival says about the 🎈 of the house, or of whoever starts over. -/
def arrivalLog (raid : Raid) (event : RaidEvent) : List Wear :=
  (if event.balloonHeld then [.held raid.target event.nextChance] else []) ++
    ((if event.balloonPopped then [.popped raid.target] else []) ++
      if event.reset then [.startedOver (struck raid event.sentBack)] else [])

structure Untold (event : RaidEvent) : Prop where
  held : event.balloonHeld = false
  popped : event.balloonPopped = false
  reset : event.reset = false

omit [SlotCodec] in
theorem Untold.log {event : RaidEvent} (h : Untold event) (raid : Raid) : arrivalLog raid event = [] := by
  rw [arrivalLog, h.held, h.popped, h.reset]
  rfl

omit [SlotCodec] in
theorem arrivalLog_congr {event event' : RaidEvent} (hheld : event'.balloonHeld = event.balloonHeld)
    (hpopped : event'.balloonPopped = event.balloonPopped) (hreset : event'.reset = event.reset)
    (hchance : event'.nextChance = event.nextChance) (hback : event'.sentBack = event.sentBack) (raid : Raid) :
    arrivalLog raid event' = arrivalLog raid event := by
  simp only [arrivalLog, hheld, hpopped, hreset, hchance, hback]

theorem defendedAtHome_wears (s : ConquisterState) (raid : Raid) {event : RaidEvent} (now : ℤ) (draw : ℕ)
    (huntold : Untold event) :
    Wears s (arrivalLog raid (defendedAtHome s raid.target event now draw).2.1)
      (defendedAtHome s raid.target event now draw).2.2 := by
  have hattempt := balloonAttempt_wears s raid.target .home now draw
  rw [defendedAtHome]
  split <;> rename_i after hroll <;> rw [hroll] at hattempt <;>
    simpa [arrivalLog, attemptLog, huntold.held, huntold.popped, huntold.reset] using hattempt

theorem salt_balloons (s : ConquisterState) (raider target : Str) (now : ℤ) (rules : RaidRules) :
    (salt s raider target now rules).2.balloons = s.balloons := by
  simp only [salt]
  split <;> rfl

theorem jaws_balloons (s : ConquisterState) (raider target : Str) (rules : RaidRules) (draws : RaidDraws) :
    (jaws s raider target rules draws).2.balloons = s.balloons := by
  simp only [jaws]
  split
  · exact (blowUp_aside s raider true draws.eaten).balloons
  · rfl

theorem board_balloons (s : ConquisterState) (raid : Raid) (rules : RaidRules) (draws : RaidDraws) :
    (board s raid rules draws).2.balloons = s.balloons := by
  rcases board_cases s raid rules draws with hsame | ⟨taken, -, -, place, -, hafter⟩
  · rw [hsame]
  · rw [hafter]
    rfl

theorem rob_balloons [Clock] {s t : ConquisterState} {index : ℕ} {raid : Raid} {event outcome : RaidEvent} {now : ℤ}
    {rules : RaidRules} {draws : RaidDraws} (h : rob s index raid event now rules draws = .ok (outcome, t)) :
    t.balloons = s.balloons ∧ arrivalLog raid outcome = arrivalLog raid event := by
  rw [rob] at h
  split at h
  · cases h
  · rename_i fromId settled hfrom
    split at h
    · cases h
    · rename_i toId mapped hto
      obtain ⟨houtcome, rfl⟩ := Prod.mk.inj (Except.ok.inj h)
      have hmapped := (playerId_aside hfrom).trans (playerId_aside hto)
      constructor
      · rw [board_balloons, ← hmapped.balloons, takeLoot]
        split <;> rfl
      · rw [← houtcome]
        split <;> exact arrivalLog_congr rfl rfl rfl rfl rfl raid

theorem raidHouse_wears [Clock] {s t : ConquisterState} {index : ℕ} {raid : Raid} {event outcome : RaidEvent}
    {now : ℤ} {rules : RaidRules} {draws : RaidDraws} (huntold : Untold event)
    (h : raidHouse s index raid event now rules draws = .ok (outcome, t)) : Wears s (arrivalLog raid outcome) t := by
  rw [raidHouse] at h
  dsimp only at h
  generalize sneaks s raid now rules draws.stealth = stealth at h
  have hcoming : Untold { event with sneaked := stealth.1, alarmed := stealth.2 } :=
    ⟨huntold.held, huntold.popped, huntold.reset⟩
  generalize ({ event with sneaked := stealth.1, alarmed := stealth.2 } : RaidEvent) = coming at h hcoming
  generalize hguarded : (if stealth.1 = true then (false, coming, s)
    else defendedAtHome s raid.target coming now draws.balloon) = guarded at h
  have hmet : Wears s (arrivalLog raid guarded.2.1) guarded.2.2 := by
    rw [← hguarded]
    split
    · rw [hcoming.log]
      exact .unworn rfl
    · exact defendedAtHome_wears s raid now draws.balloon hcoming
  split at h
  · cases h
    exact hmet
  · generalize (if stealth.1 = true then (0 : ℤ)
      else upToAll (houseCopies guarded.2.2 raid.target .dog) rules.dogPercent) = chance at h
    split at h
    · cases h
      exact hmet
    · obtain ⟨hballoons, hlog⟩ := rob_balloons h
      rw [hlog, ← List.append_nil (arrivalLog _ _)]
      exact hmet.append (Wears.unworn hballoons)

omit [SlotCodec] in
theorem deliverPalle_balloons (s : ConquisterState) (index : ℕ) (raid : Raid) :
    (deliverPalle s index raid).balloons = s.balloons := by
  rw [deliverPalle]
  split <;> rfl

theorem receive_balloons {s t : ConquisterState} {player emoji : Str} {limit : ℕ} {onHim : Bool}
    (h : receive s player emoji limit = some (onHim, t)) : t.balloons = s.balloons := by
  rcases receive_cases h with hworn | hkept
  · exact (putOn_aside hworn).balloons
  · exact (putInHouse_aside hkept).balloons

/-- What is thrown at a house wears no 🎈, unless somebody starts over. -/
theorem throwAtHouse_wears (s : ConquisterState) (index : ℕ) (raid : Raid) {event : RaidEvent} (now : ℤ)
    (rules : RaidRules) (draws : RaidDraws) (huntold : Untold event) :
    Wears s (arrivalLog raid (throwAtHouse s index raid event now rules draws).1)
      (throwAtHouse s index raid event now rules draws).2 := by
  simp only [throwAtHouse]
  generalize sentBack s raid rules draws.mailbox = back
  generalize (if back = true then { rules with bombDudPercent := 0 } else rules) = milder
  have hballoons := land_balloons s raid.giftEmoji raid.raider (struck raid back) .home now milder draws.landing
  generalize land s raid.giftEmoji raid.raider (struck raid back) .home now milder draws.landing = landed at hballoons ⊢
  simp only [arrivalLog, huntold.held, huntold.popped, Bool.false_eq_true, if_false, List.nil_append]
  cases hreset : landed.1.reset with
  | true =>
    rw [hreset, if_pos rfl] at hballoons
    exact .fresh hballoons (fun _ => trivial) fun _ => rfl
  | false =>
    rw [hreset, if_neg Bool.false_ne_true] at hballoons
    exact .unworn hballoons

theorem deliverEmoji_wears (s : ConquisterState) (index : ℕ) (raid : Raid) {event : RaidEvent} (now : ℤ)
    (rules : RaidRules) (draws : RaidDraws) (huntold : Untold event) :
    Wears s (arrivalLog raid (deliverEmoji s index raid event now rules draws).1)
      (deliverEmoji s index raid event now rules draws).2 := by
  have hquiet {event' : RaidEvent} {t : ConquisterState} (hevent : Untold event') (h : t.balloons = s.balloons) :
      Wears s (arrivalLog raid event') t := by
    rw [hevent.log]
    exact .unworn h
  simp only [deliverEmoji]
  split
  · exact hquiet ⟨huntold.held, huntold.popped, huntold.reset⟩ rfl
  · split
    · exact throwAtHouse_wears s index raid now rules draws ⟨huntold.held, huntold.popped, huntold.reset⟩
    · split
      · rename_i onHim kept hreceive
        have hkept : kept.balloons = s.balloons := receive_balloons hreceive
        exact hquiet ⟨huntold.held, huntold.popped, huntold.reset⟩ hkept
      · exact hquiet ⟨huntold.held, huntold.popped, huntold.reset⟩ rfl

theorem deliver_wears (s : ConquisterState) (index : ℕ) (raid : Raid) {event : RaidEvent} (now : ℤ)
    (rules : RaidRules) (draws : RaidDraws) (huntold : Untold event) :
    Wears s (arrivalLog raid (deliver s index raid event now rules draws).1)
      (deliver s index raid event now rules draws).2 := by
  have hbringing : Untold { event with kind := .delivered, gift := raid.gift } :=
    ⟨huntold.held, huntold.popped, huntold.reset⟩
  have hpaid : Wears s [] (deliverPalle s index raid) := .unworn (deliverPalle_balloons s index raid)
  simp only [deliver]
  split
  · rw [hbringing.log]
    exact hpaid
  · exact hpaid.append (deliverEmoji_wears _ index raid now rules draws hbringing)

theorem atTheDoor_untold (s : ConquisterState) (raid : Raid) {event : RaidEvent} (now : ℤ) (rules : RaidRules)
    (draws : RaidDraws) (huntold : Untold event) :
    Untold (atTheDoor s raid event now rules draws).1 ∧
      (atTheDoor s raid event now rules draws).2.balloons = s.balloons := by
  have hballoons : (jaws (salt s raid.raider raid.target now rules).2 raid.raider raid.target rules draws).2.balloons =
      s.balloons := by
    rw [jaws_balloons, salt_balloons]
  simp only [atTheDoor]
  split <;> exact ⟨⟨huntold.held, huntold.popped, huntold.reset⟩, hballoons⟩

theorem noteChanges_log (event : RaidEvent) (raid : Raid) (before : RaidEvent) (s : ConquisterState) :
    arrivalLog raid (noteChanges event raid before s) = arrivalLog raid event := by
  rw [noteChanges]
  split_ifs <;> exact arrivalLog_congr rfl rfl rfl rfl rfl raid

theorem arrival_wears [Clock] {s t : ConquisterState} {index : ℕ} {raid : Raid} {now : ℤ} {rules : RaidRules}
    {draws : RaidDraws} {event : RaidEvent} (h : arrival s index raid now rules draws = .ok (event, t)) :
    Wears s (arrivalLog raid event) t := by
  have hthere : (onRide s index Raid.reached).balloons = s.balloons := rfl
  simp only [arrival] at h
  generalize onRide s index Raid.reached = there at h hthere
  have huntold : Untold (arrivalEvent there raid now) := ⟨rfl, rfl, rfl⟩
  generalize hmet : (if raid.gift = 0 ∧ raid.giftEmoji = [] then
    atTheDoor there raid (arrivalEvent there raid now) now rules draws
    else (arrivalEvent there raid now, there)) = met at h
  have hdoor : Untold met.1 ∧ met.2.balloons = there.balloons := by
    rw [← hmet]
    split
    · exact atTheDoor_untold there raid now rules draws huntold
    · exact ⟨huntold, rfl⟩
  have hcome : Wears s [] met.2 := .unworn (hdoor.2.trans hthere)
  split at h
  · cases h
  · rename_i outcome after houtcome
    cases h
    rw [noteChanges_log]
    refine hcome.append ?_
    split at houtcome
    · have hdelivered := deliver_wears met.2 index raid now rules draws hdoor.1
      rw [Except.ok.inj houtcome] at hdelivered
      exact hdelivered
    · exact raidHouse_wears hdoor.1 houtcome

theorem homecoming_balloons (s : ConquisterState) (raid : Raid) (now : ℤ) :
    (homecoming s raid now).2.balloons = s.balloons := by
  have hpaid : (bringPalle s raid).balloons = s.balloons := by
    rw [bringPalle]
    split <;> rfl
  have hback (raider emoji : Str) (t : ConquisterState) : (bringBack t raider emoji).balloons = t.balloons := by
    by_cases hemoji : emoji = []
    · rw [bringBack, if_pos hemoji]
    · rcases bringBack_cases t raider hemoji with hworn | hkept
      · exact (putOn_aside hworn).balloons
      · exact (putInHouse_aside hkept).balloons
  exact (hback _ _ _).trans hpaid

section
variable [Clock]

def rideLog (state : ConquisterState) (index : ℕ) (now : ℤ) (rules : RaidRules) (draws : RaidDraws) : List Wear :=
  match state.raids[index]? with
  | none => []
  | some raid =>
    if raid.due now then
      match arrival state index raid now rules draws with
      | .error _ => []
      | .ok (event, _) => arrivalLog raid event
    else []

def ridesLog (now : ℤ) (rules : RaidRules) (draws : ℕ → RaidDraws) : ℕ → ℕ → ConquisterState → List Wear
  | 0, _, _ => []
  | count + 1, index, state =>
    rideLog state index now rules (draws index) ++
      match settleRide state index now rules (draws index) with
      | .error _ => []
      | .ok (_, settled) => ridesLog now rules draws count (index + 1) settled

theorem settleRide_wears {s t : ConquisterState} {index : ℕ} {now : ℤ} {rules : RaidRules} {draws : RaidDraws}
    {events : List RaidEvent} (h : settleRide s index now rules draws = .ok (events, t)) :
    Wears s (rideLog s index now rules draws) t := by
  rw [settleRide] at h
  split at h
  · cases h
  · rename_i arrived there harrived
    cases h
    have hthere : Wears s (rideLog s index now rules draws) there := by
      rw [settleArrival] at harrived
      rw [rideLog]
      cases hraid : s.raids[index]? with
      | none =>
        rw [hraid] at harrived
        cases harrived
        exact .unworn rfl
      | some raid =>
        rw [hraid] at harrived
        dsimp only at harrived ⊢
        by_cases hdue : raid.due now = true
        · rw [if_pos hdue] at harrived ⊢
          cases harrival : arrival s index raid now rules draws with
          | error failure =>
            rw [harrival] at harrived
            cases harrived
          | ok result =>
            obtain ⟨event, after⟩ := result
            rw [harrival] at harrived
            cases harrived
            exact arrival_wears harrival
        · rw [if_neg hdue] at harrived ⊢
          cases harrived
          exact .unworn rfl
    have hback : Wears there [] (settleHomecoming there index now).2 := by
      rw [settleHomecoming]
      split
      · exact .unworn rfl
      · split
        · exact .unworn (homecoming_balloons there _ now)
        · exact .unworn rfl
    rw [← List.append_nil (rideLog _ _ _ _ _)]
    exact hthere.append hback

theorem settleRides_wears {now : ℤ} {rules : RaidRules} {draws : ℕ → RaidDraws} {count index : ℕ}
    {s t : ConquisterState} {events : List RaidEvent}
    (h : settleRides now rules draws count index s = .ok (events, t)) :
    Wears s (ridesLog now rules draws count index s) t := by
  induction count generalizing index s events with
  | zero =>
    cases h
    exact .unworn rfl
  | succ count ih =>
    rw [settleRides] at h
    rw [ridesLog]
    cases hfirst : settleRide s index now rules (draws index) with
    | error failure =>
      rw [hfirst] at h
      cases h
    | ok result =>
      obtain ⟨first, settled⟩ := result
      rw [hfirst] at h
      dsimp only at h
      split at h
      · cases h
      · rename_i others after hothers
        cases h
        exact (settleRide_wears hfirst).append (ih hothers)

def roundLog (state : ConquisterState) (now : ℤ) (rules : RaidRules) (draws : DueDraws) : List Wear :=
  ridesLog now rules draws.ride (beforeRides state now rules draws).2.raids.length 0
    (beforeRides state now rules draws).2

theorem raidDue_wears {s t : ConquisterState} {now : ℤ} {rules : RaidRules} {draws : DueDraws}
    {events : List RaidEvent} (h : raidDue s now rules draws = .ok (events, t)) :
    Wears s (roundLog s now rules draws) t := by
  simp only [raidDue] at h
  split at h
  · cases h
  · rename_i walked after hwalk
    cases h
    have hbefore : Wears s [] (beforeRides s now rules draws).2 :=
      .unworn (beforeRides_aside s now rules draws).balloons
    have hwalked : Wears (beforeRides s now rules draws).2 (roundLog s now rules draws) after := settleRides_wears hwalk
    exact hbefore.append hwalked

/-- What an operation does to the 🎈, as far as it goes through. -/
def wearLog (files : Files) (op : Op) : List Wear :=
  match step files op with
  | .error _ => []
  | .ok (reply, _) =>
    match op, reply with
    | .raidDue now rules draws, _ => roundLog files.state now rules draws
    | .link userId username otherName accountName, .link .linked =>
      ((linkKeys files.state userId username otherName accountName).map fun keys =>
        Wear.merged (droppedKey files.state keys)).toList
    | _, .claim result => claimLog result
    | _, .burn result => if result.reset then [.wiped] else []
    | _, _ => []

/-- Everything that happened to the 🎈 in the course of a run. -/
def wearsOf (files : Files) : List Op → List Wear
  | [] => []
  | op :: ops => wearLog files op ++ wearsOf (files.after op) ops

theorem playerSeen_balloons (s : ConquisterState) (userId : ℤ) (username accountName : Str) (limit : ℕ) (now : ℤ) :
    (playerSeen s userId username accountName limit now).2.balloons = s.balloons := by
  have hwelcome := welcome_aside (introduce s userId username accountName now)
    (keyFor s userId username accountName) limit
  have hintroduced : (introduce s userId username accountName now).balloons = s.balloons := by
    simp only [introduce, join, rememberPlatform, rememberIrc, rememberTelegram, showName, takeName, bindAccount]
    split_ifs <;> rfl
  rw [← hintroduced, ← hwelcome.balloons]
  simp only [playerSeen, countDay]
  split_ifs <;> rfl

omit [SlotCodec] [Clock] in
theorem quoteAdd_balloons {s t : ConquisterState} {quotes quotes' : Quotes} {username quote : Str} {cost : ℤ}
    {result : QuoteAddResult} (h : quoteAdd s quotes username quote cost = .ok (result, t, quotes')) :
    t.balloons = s.balloons := by
  simp only [quoteAdd] at h
  split_ifs at h <;> cases h <;> rfl

omit [SlotCodec] [Clock] in
theorem quoteDelete_balloons (s : ConquisterState) (quotes : Quotes) (selector : Str) :
    (quoteDelete s quotes selector).2.1.balloons = s.balloons := by
  rw [quoteDelete]
  split
  · rfl
  · simp only [forgetAuthor]
    split <;> rfl

omit [SlotCodec] [Clock] in
theorem inviteRecord_balloons (s : ConquisterState) (newcomer inviter : Str) (platform : RaidTargetKind) (now : ℤ) :
    (inviteRecord s newcomer inviter platform now).2.2.balloons = s.balloons := by
  rw [inviteRecord]
  split
  · rfl
  · split_ifs
    · rfl
    · split
      · rfl
      · split
        · rfl
        · split <;> rfl

omit [SlotCodec] [Clock] in
theorem inviteDue_balloons (s : ConquisterState) (newcomer : Str) (samePerson : Bool) :
    (inviteDue s newcomer samePerson).2.balloons = s.balloons := by
  rw [inviteDue]
  split
  · rfl
  · split <;> rfl

theorem step_wears {files files' : Files} {op : Op} {reply : Reply} (h : step files op = .ok (reply, files')) :
    Wears files.state (wearLog files op) files'.state := by
  rw [wearLog, h]
  cases op with
  | claim userId username now rules draws =>
    obtain ⟨result, hclaim, rfl, -⟩ := Files.only_eq_ok h
    exact conquisterClaim_wears hclaim
  | raidStart userId username now rules errand draws =>
    obtain ⟨result, hstart, rfl, -⟩ := Files.only_eq_ok h
    have hknown : (rememberPlatform files.state username userId).balloons = files.state.balloons := by
      rw [rememberPlatform, rememberIrc, rememberTelegram]
      split_ifs <;> rfl
    exact .unworn ((raidStart_setsOff hstart).1.balloons.trans hknown)
  | raidDue now rules draws =>
    obtain ⟨events, hdue, rfl, -⟩ := Files.only_eq_ok h
    exact raidDue_wears hdue
  | buy username emoji position cost limit now inflation =>
    obtain ⟨result, hbuy, rfl, -⟩ := Files.only_eq_ok h
    exact .unworn (furnitureBuy_aside hbuy).balloons
  | move username source target limit now =>
    obtain ⟨result, hmove, rfl, -⟩ := Files.only_eq_ok h
    exact .unworn (furnitureMove_aside hmove).balloons
  | burn player emoji now rules destroy draws =>
    obtain ⟨result, hburn, rfl, -⟩ := Files.only_eq_ok h
    dsimp only
    rcases furnitureBurn_cases hburn with ⟨hspared, hquiet⟩ | ⟨hreset, taken, htaken, hover⟩
    · rw [hspared]
      exact .unworn hquiet.balloons
    · rw [hreset, hover]
      apply Ticks.single trivial
      funext key
      rfl
  | palleBurn player amount =>
    cases h
    exact .unworn (palleBurn_aside files.state player amount).balloons
  | take player emoji swap now =>
    obtain ⟨result, htake, rfl, -⟩ := Files.only_eq_ok h
    exact .unworn (gearTake_aside htake).balloons
  | store player emoji limit now =>
    obtain ⟨result, hstore, rfl, -⟩ := Files.only_eq_ok h
    exact .unworn (gearStore_aside hstore).balloons
  | sortOut =>
    cases h
    exact .unworn (equipmentSortOut_aside files.state).balloons
  | seen userId username accountName furnitureLimit now =>
    cases h
    exact .unworn (playerSeen_balloons files.state userId username accountName furnitureLimit now)
  | link userId username otherName accountName =>
    obtain ⟨status, hlink, rfl, -⟩ := Files.only_eq_ok h
    rcases playerLink_cases hlink with ⟨hnot, -, requests, hsame⟩ | ⟨keys, mine, theirs, rfl, hkeys, -, -, hmerged⟩
    · rw [hsame]
      cases status with
      | linked => exact absurd rfl hnot
      | _ => exact .unworn rfl
    · rw [hmerged]
      dsimp only
      rw [hkeys]
      exact .fresh rfl (fun _ => trivial) fun _ => rfl
  | handOut furnitureLimit =>
    cases h
    exact .unworn (balloonsHandOut_aside files.state furnitureLimit).balloons
  | quoteAdd username quote cost =>
    rw [step] at h
    split at h
    · cases h
    · rename_i result state quotes hadd
      cases h
      exact .unworn (quoteAdd_balloons hadd)
  | quoteDelete selector =>
    have hsame := quoteDelete_balloons files.state files.quotes selector
    rw [step] at h
    split at h
    rename_i removed state quotes hdelete
    cases h
    rw [hdelete] at hsame
    exact .unworn hsame
  | guide player =>
    cases h
    exact .unworn (guideDue_aside files.state player).balloons
  | invite newcomer inviter platform now =>
    have hsame := inviteRecord_balloons files.state newcomer inviter platform now
    rw [step] at h
    split at h
    rename_i status shown state hrecord
    cases h
    rw [hrecord] at hsame
    exact .unworn hsame
  | reward newcomer samePerson =>
    cases h
    exact .unworn (inviteDue_balloons files.state newcomer samePerson)
  | debug username wanted =>
    cases h
    exact .unworn rfl

theorem run_wears (files : Files) (ops : List Op) : Wears files.state (wearsOf files ops) (files.run ops).state := by
  induction ops generalizing files with
  | nil => exact .unworn rfl
  | cons op ops ih =>
    refine Ticks.append ?_ (ih (files.after op))
    cases hop : step files op with
    | error failure =>
      rw [wearLog, Files.after, hop]
      exact Wears.unworn rfl
    | ok result =>
      obtain ⟨reply, files'⟩ := result
      rw [Files.after_eq hop]
      exact step_wears hop

omit [SlotCodec] [Clock] in
/-- Nobody's 🎈 held more than three times. -/
theorem Wears.le_three {count count' : Str → ℤ} {log : List Wear} (h : Ticks Wear.effect Wear.Fair count log count')
    (hstart : ∀ player, count player ≤ 3) (player : Str) : count' player ≤ 3 := by
  revert player
  apply h.keeps _ hstart
  intro count wear hfair hbefore player
  rw [tick]
  split
  · rename_i hcounts
    cases wear with
    | held attacked nextChance =>
      rw [Wear.effect] at hcounts
      split at hcounts
      · rename_i his
        rw [his]
        exact hfair.1
      · cases hcounts
    | wiped => cases hcounts
    | _ =>
      rw [Wear.effect] at hcounts
      split at hcounts <;> cases hcounts
  · decide
  · exact hbefore player

/-- Whatever happens, the entry of a player is the number of attempts his 🎈 held off since it last popped, or
he was last kicked out past it, started over or was merged into another player. That is three at most, and the
chance told after a hold is the one of the next attempt; so no more than three attempts in a row are held off. -/
theorem balloon_holds_three {files : Files} (hnone : ∀ player, counter files.state.balloons player = 0)
    (ops : List Op) (player : Str) :
    counter (files.run ops).state.balloons player = streak Wear.effect player (wearsOf files ops) ∧
    streak Wear.effect player (wearsOf files ops) ≤ 3 ∧
    (∀ before (nextChance : ℤ) after, wearsOf files ops = before ++ .held player nextChance :: after →
      nextChance = 25 * ((streak Wear.effect player (before ++ [.held player nextChance]) : ℕ) + 1) ∧
        nextChance ≤ 100) ∧
    ∀ before stretch after, wearsOf files ops = before ++ stretch ++ after →
      (∀ wear ∈ stretch, wear.effect player ≠ .clears) →
      (stretch.countP fun wear => wear.effect player = .counts) ≤ 3 := by
  have hwears := run_wears files ops
  have hfirst (log after : List Wear) (hlog : wearsOf files ops = log ++ after) :
      (streak Wear.effect player log : ℤ) ≤ 3 := by
    rw [hlog] at hwears
    have hbefore := Ticks.before hwears
    rw [← foldl_tick Wear.effect hnone]
    exact Wears.le_three hbefore (fun other => by rw [hnone]; decide) player
  refine ⟨?_, ?_, ?_, ?_⟩
  · rw [hwears.eq_foldl, foldl_tick Wear.effect hnone]
  · exact_mod_cast hfirst (wearsOf files ops) [] (List.append_nil _).symm
  · intro before nextChance after hlog
    rw [hlog] at hwears
    have hfair := hwears.admitted_at
    rw [Wear.Fair, foldl_tick Wear.effect hnone] at hfair
    have hheld : streak Wear.effect player (before ++ [.held player nextChance]) =
        streak Wear.effect player before + 1 := by
      rw [streak_concat]
      simp [Wear.effect]
    rw [hheld]
    push_cast
    exact ⟨hfair.2, by omega⟩
  · intro before stretch after hlog hkept
    have hwhole := hfirst (before ++ stretch) after hlog
    rw [streak_append Wear.effect before hkept] at hwhole
    omega

end

end

/-- The 🎈 holds, and nothing else comes of it. -/
def heldOff : DueDraws := ⟨fun _ => 0, fun _ => ⟨0, 0⟩, fun _ => ⟨0, 0, 0, ⟨0, 0⟩, 0, 3, 0, [1], [2], 0, 0⟩⟩

def bobLinks : List Op := [
  .seen 1 (utf8 "ada") [] 10 (day 1),
  .seen 0 (utf8 "bob") [] 10 (day 1),
  .seen 0 (utf8 "carl") [] 10 (day 1),
  .raidStart 0 (utf8 "irc:carl") (day 20) {} { target := utf8 "bob" } ⟨[1], [2]⟩,
  .raidDue (day 30) {} heldOff,
  .link 0 (utf8 "bob") (utf8 "ada") [],
  .link 1 (utf8 "ada") (utf8 "bob") []]

theorem balloon_holds_three_bob :
    counter (@Files.run _ utc {} bobLinks).state.balloons (utf8 "irc:bob") = 0 ∧
      @wearsOf _ utc {} bobLinks = [.held (utf8 "irc:bob") 50, .merged (utf8 "irc:bob")] ∧
      streak Wear.effect (utf8 "irc:bob") (@wearsOf _ utc {} bobLinks) ≤ 3 := by
  have h := @balloon_holds_three _ utc {} (fun _ => rfl) bobLinks (utf8 "irc:bob")
  have hlog : @wearsOf _ utc {} bobLinks = [.held (utf8 "irc:bob") 50, .merged (utf8 "irc:bob")] := by decide +kernel
  refine ⟨?_, hlog, h.2.1⟩
  rw [h.1, hlog]
  decide

/-- What happens to a 🎈, if a link did nothing to it. -/
def Wear.effectUnlinked : Wear → Str → Effect
  | .merged _, _ => .neither
  | wear, key => wear.effect key

/-- Bob's 🎈 held once, never popped, and his entry is gone all the same. -/
theorem link_clears_wear :
    ¬ ∀ ops player, counter (@Files.run _ utc {} ops).state.balloons player =
      streak Wear.effectUnlinked player (@wearsOf _ utc {} ops) := by
  intro h
  apply absurd (h bobLinks (utf8 "irc:bob"))
  decide +kernel

end NorelecBot
