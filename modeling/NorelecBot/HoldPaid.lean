import NorelecBot.HoldAccount

/-! # What a hold is paid in the end

Along any run in which the holder stays where he is, his hold goes with its
meter; whatever then takes him out of the place and pays him pays what it shows.
-/

namespace NorelecBot
open Lib

section
variable [SlotCodec]

theorem kick_cases {s t : ConquisterState} {hold : Holder} {userId : ℤ} {username : Str} {now : ℤ}
    {rules : ClaimRules} {draws : ClaimDraws} {result : ClaimResult}
    (h : kick s hold userId username now rules draws = .ok (result, t)) :
    (result.status ≠ .taken ∧ t.current = s.current) ∨
      ∃ worn settled paid outcome, worn.scores = s.scores ∧ settleHold worn hold now = .ok (settled, paid) ∧
        outcome.status = .taken ∧ outcome.earned = settled.earned ∧ outcome.previousKey = hold.username ∧
        enter paid outcome userId username now rules = (result, t) := by
  rw [kick] at h
  dsimp only at h
  generalize hsneaked : (!(newcomer s username now && _) && _ && _ && _ : Bool) = sneaked at h
  generalize hfirst : (newcomer s username now && decide (counter s.entered username = 0) : Bool) = first at h
  generalize hattempt : (if (sneaked || first) = true then (BalloonRoll.none, s)
    else balloonAttempt s hold.username .conquister now draws.balloon) = attempt at h
  have hsame : attempt.2.scores = s.scores ∧ attempt.2.current = s.current := by
    rw [← hattempt]
    split
    · exact ⟨rfl, rfl⟩
    · obtain ⟨hquiet, hcurrent⟩ := balloonAttempt_quiet s hold.username .conquister now draws.balloon
      exact ⟨hquiet.scores, hcurrent⟩
  split at h
  · cases h
    refine .inl ⟨by simp, ?_⟩
    split
    · exact hsame.2
    · exact hsame.2
  · split at h
    · cases h
    · rename_i settled paid hsettled
      refine .inr ⟨_, settled, paid, _, ?_, hsettled, ?_, ?_, ?_, Except.ok.inj h⟩
      · split
        · exact hsame.1
        · exact hsame.1
      · rfl
      · rfl
      · rfl

/-- Whoever comes in is in, and the hold he ended, if somebody had it, is paid. -/
theorem conquisterClaim_cases {s t : ConquisterState} {userId : ℤ} {username : Str} {now : ℤ} {rules : ClaimRules}
    {draws : ClaimDraws} {result : ClaimResult}
    (h : conquisterClaim s userId username now rules draws = .ok (result, t)) :
    (result.status ≠ .taken ∧ t.current = s.current) ∨
      (∃ paid outcome, enter paid outcome userId username now rules = (result, t) ∧ outcome.status = .taken ∧
        (outcome.previousKey ≠ [] → ∀ hold, s.current = some hold → ∃ worn settled, worn.scores = s.scores ∧
          settleHold worn hold now = .ok (settled, paid) ∧ outcome.earned = settled.earned)) := by
  simp only [conquisterClaim] at h
  have hcurrent : (rememberPlatform s username userId).current = s.current := by
    rw [rememberPlatform, rememberIrc, rememberTelegram]
    split_ifs <;> rfl
  have hscores := (rememberPlatform_quiet s username userId).scores
  generalize rememberPlatform s username userId = known at h hcurrent hscores
  rw [← hcurrent, ← hscores]
  split at h
  · cases h
    exact .inl ⟨by simp, rfl⟩
  · split at h
    · cases h
      exact .inl ⟨by simp, rfl⟩
    · rw [claimFree] at h
      split at h
      · cases h
        exact .inl ⟨by simp, rfl⟩
      · split at h
        · cases h
          exact .inl ⟨by simp, rfl⟩
        · split at h
          · exact .inr ⟨_, {}, Except.ok.inj h, rfl, fun hnobody => absurd rfl hnobody⟩
          · rename_i hold hheld
            have hthere := (Option.filter_eq_some_iff.mp hheld).1
            rcases kick_cases h with hkept | ⟨worn, settled, paid, outcome, hscores', hsettled, hstatus, hearned, -, hin⟩
            · exact .inl hkept
            · refine .inr ⟨paid, outcome, hin, hstatus, fun _ other hother => ?_⟩
              cases hthere.symm.trans hother
              exact ⟨worn, settled, hscores', hsettled, hearned⟩

theorem enter_cases {s t : ConquisterState} {outcome result : ClaimResult} {userId : ℤ} {username : Str} {now : ℤ}
    {rules : ClaimRules} (h : enter s outcome userId username now rules = (result, t)) :
    result.status = outcome.status ∧ result.earned = outcome.earned ∧ result.previousKey = outcome.previousKey ∧
      ∃ (known : ConquisterState) (lobsters : SortedMap Str),
        t = { known with current := some (newHold known userId username now rules.lightning lobsters) } := by
  rw [enter] at h
  obtain ⟨rfl, rfl⟩ := Prod.mk.inj h
  exact ⟨rfl, rfl, rfl, _, _, rfl⟩

/-- Whether whoever held the place holds it still. -/
def Op.stays (after : ConquisterState) : Op → Reply → Bool
  | .claim .., .claim result => result.status ≠ .taken
  | _, _ => after.current.isSome

/-- When something, not a child, is brought back to the place. -/
def Op.brings (state : ConquisterState) : Op → Option ℤ
  | .burn player emoji now _ _ _ =>
    if ¬ onTheRoad state player ∧ (takeEmoji state player emoji).isSome then some now else none
  | _ => none

/-- What time it is for an operation that can count the seconds of a hold. -/
def Op.time : Op → Option ℤ
  | .claim _ _ now _ _ => some now
  | .raidStart _ _ now _ _ _ => some now
  | .buy _ _ _ _ _ now _ => some now
  | .move _ _ _ _ now => some now
  | .burn _ _ now _ _ _ => some now
  | .take _ _ _ now => some now
  | .store _ _ _ now => some now
  | _ => none

theorem furnitureBurn_hold {s t : ConquisterState} {player emoji : Str} {now : ℤ} {rules : RaidRules}
    {destroy : Bool} {draws : LandDraws} {result : FurnitureBurnResult}
    (h : furnitureBurn s player emoji now rules destroy draws = .ok (result, t)) :
    ((Op.burn player emoji now rules destroy draws).brings s = none ∧ t.current = s.current) ∨
      ((Op.burn player emoji now rules destroy draws).brings s = some now ∧
        (t.current = none ∨ ∃ landed, Stands s landed ∧ loseBolts landed now = .ok t)) := by
  rw [Op.brings]
  rw [furnitureBurn] at h
  split at h
  · rename_i hroad
    cases h
    exact .inl ⟨if_neg fun hhere => hhere.1 hroad, rfl⟩
  · rename_i hhere
    split at h
    · rename_i hnone
      refine .inl ⟨if_neg fun htaken => ?_, ?_⟩
      · rw [hnone] at htaken
        exact Bool.false_ne_true htaken.2
      · split at h
        · cases h
          rfl
        · split at h
          · cases h
            rfl
          · cases h
            rw [burnChild]
            split <;> rfl
    · rename_i taken htaken
      have htake := (takeEmoji_passage htaken).stands rfl
      have hsome : (takeEmoji s player emoji).isSome := by
        rw [htaken]
        rfl
      refine .inr ⟨if_pos ⟨hhere, hsome⟩, ?_⟩
      split at h
      · exact .inr ⟨taken, htake, (thenLoseBolts_eq_ok h).2⟩
      · split at h
        · cases h
          exact .inl rfl
        · rename_i hnuke
          obtain ⟨hresult, hbolts⟩ := thenLoseBolts_eq_ok h
          have hthrown := (throwAtPlace_passage (Bool.not_eq_true _ ▸ hnuke) (Prod.ext hresult.symm rfl)).1
          exact .inr ⟨_, htake.trans (hthrown.stands rfl), hbolts⟩

omit [SlotCodec] in
/-- What stands after something else was done is the same hold, but for its 🦞. -/
theorem Stands.runs {s t : ConquisterState} {lightning : ℤ} {meter : HoldMeter} {hold : Holder} (h : Stands s t)
    (hheld : s.current = some hold) (hruns : hold.Runs lightning meter) (hstays : t.current.isSome) :
    ∃ hold', t.current = some hold' ∧ hold'.username = hold.username ∧ hold'.Runs lightning meter := by
  obtain ⟨hold', hheld'⟩ := Option.isSome_iff_exists.mp hstays
  rcases h with hnone | hsame
  · rw [hnone] at hheld'
    cases hheld'
  · rw [hheld, hheld'] at hsame
    obtain ⟨hruns', hname⟩ := hruns.congr (Option.some.inj hsame)
    exact ⟨hold', hheld', hname, hruns'⟩

theorem loseBolts_isSome {s t : ConquisterState} {now : ℤ} {hold : Holder} (h : loseBolts s now = .ok t)
    (hheld : t.current = some hold) : s.current.isSome := by
  obtain ⟨current, rfl, hsame⟩ := loseBolts_current h
  obtain ⟨before, hbefore, -⟩ := hsame hold hheld
  rw [hbefore]
  rfl

section
variable [Clock]

/-- The ⚡ the holder is left with whenever something is brought back to the place. -/
def Files.reading (files : Files) (op : Op) : List (ℤ × ℤ) :=
  match step files op with
  | .error _ => []
  | .ok (_, files') =>
    match op.brings files.state, files'.state.current with
    | some now, some hold => [(now, carriedCopies files'.state hold.username .bolt)]
    | _, _ => []

def Files.readings : Files → List Op → List (ℤ × ℤ)
  | _, [] => []
  | files, op :: ops => files.reading op ++ (files.after op).readings ops

def Files.stays : Files → List Op → Bool
  | _, [] => true
  | files, op :: ops =>
    (match step files op with
      | .error _ => true
      | .ok (reply, files') => op.stays files'.state reply) && (files.after op).stays ops

theorem Files.reading_none {files : Files} {op : Op} (h : op.brings files.state = none) : files.reading op = [] := by
  rw [reading]
  split
  · rfl
  · rw [h]

omit [Clock] in
theorem Op.time_of_brings {state : ConquisterState} {op : Op} {now : ℤ} (h : op.brings state = some now) :
    op.time = some now := by
  cases op with
  | burn player emoji time rules destroy draws =>
    rw [brings] at h
    split at h
    · exact h
    · cases h
  | _ => cases h

/-- A reading is taken at the time of its operation. -/
theorem Files.reading_time {files : Files} {op : Op} {reading : ℤ × ℤ} (h : reading ∈ files.reading op) :
    op.time = some reading.1 := by
  rw [Files.reading] at h
  split at h
  · cases h
  · split at h
    · rename_i now hold hnow hhold
      rw [List.mem_singleton.mp h]
      exact Op.time_of_brings hnow
    · cases h

/-- While the holder stays, an operation leaves his hold with its meter, read out if he lost a ⚡ by it. -/
theorem step_runs {files : Files} {op : Op} {lightning : ℤ} {meter : HoldMeter} {hold : Holder}
    (hheld : files.state.current = some hold) (hruns : hold.Runs lightning meter)
    (hstays : ∀ reply files', step files op = .ok (reply, files') → op.stays files'.state reply)
    (hnow : ∀ now, op.time = some now → meter.since ≤ now) :
    ∃ hold', (files.after op).state.current = some hold' ∧ hold'.username = hold.username ∧
      hold'.Runs lightning (meter.watch (stretchWorth lightning) (files.reading op)) := by
  cases hop : step files op with
  | error failure =>
    rw [Files.after, Files.reading, hop]
    exact ⟨hold, hheld, rfl, hruns⟩
  | ok result =>
    obtain ⟨reply, files'⟩ := result
    have hkept := hstays reply files' hop
    rw [Files.after_eq hop]
    have huntended (hop' : op.Untended) (hbrings : op.brings files.state = none)
        (hthere : files'.state.current.isSome) : ∃ hold', files'.state.current = some hold' ∧
          hold'.username = hold.username ∧
          hold'.Runs lightning (meter.watch (stretchWorth lightning) (files.reading op)) := by
      obtain ⟨f, hpassage, -, htended⟩ := step_passage hop
      rw [Files.reading_none hbrings]
      exact (hpassage.stands (htended hop')).runs hheld hruns hthere
    cases op with
    | claim userId username now rules draws =>
      obtain ⟨result, hclaim, rfl, -⟩ := Files.only_eq_ok hop
      rw [Files.reading_none rfl]
      rcases conquisterClaim_cases hclaim with ⟨-, hsame⟩ | ⟨paid, outcome, hin, hstatus, -⟩
      · exact ⟨hold, hsame.trans hheld, rfl, hruns⟩
      · exact absurd ((enter_cases hin).1.trans hstatus) (of_decide_eq_true hkept)
    | burn player emoji now rules destroy draws =>
      obtain ⟨result, hburn, rfl, -⟩ := Files.only_eq_ok hop
      rcases furnitureBurn_hold hburn with ⟨hbrings, hsame⟩ | ⟨hbrings, hlanded⟩
      · rw [Files.reading_none hbrings]
        exact ⟨hold, hsame.trans hheld, rfl, hruns⟩
      · obtain ⟨hold', hheld'⟩ := Option.isSome_iff_exists.mp hkept
        rcases hlanded with hnone | ⟨landed, hstands, hbolts⟩
        · rw [hnone] at hheld'
          cases hheld'
        · obtain ⟨there, hthere, hname, hruns'⟩ := hstands.runs hheld hruns (loseBolts_isSome hbolts hheld')
          obtain ⟨counted, hcounted, hname', hslower⟩ := loseBolts_runs hthere hruns' (hnow now rfl) hbolts
          refine ⟨counted, hcounted, hname'.trans hname, ?_⟩
          rw [Files.reading, hop]
          dsimp only
          rw [hbrings, hcounted]
          dsimp only
          rw [hname']
          exact hslower
    | _ => exact huntended trivial rfl hkept

/-- So does a whole run while which he stays. -/
theorem Files.run_runs {files : Files} {ops : List Op} {lightning : ℤ} {meter : HoldMeter} {hold : Holder}
    (hheld : files.state.current = some hold) (hruns : hold.Runs lightning meter) (hstays : files.stays ops)
    (htimes : (meter.since :: ops.filterMap Op.time).Pairwise (· ≤ ·)) :
    ∃ hold', (files.run ops).state.current = some hold' ∧ hold'.username = hold.username ∧
      hold'.Runs lightning (meter.watch (stretchWorth lightning) (files.readings ops)) := by
  induction ops generalizing files meter hold with
  | nil => exact ⟨hold, hheld, rfl, hruns⟩
  | cons op ops ih =>
    obtain ⟨hfirst, hrest⟩ : _ ∧ _ := Bool.and_eq_true_iff.mp hstays
    have hnow (now : ℤ) (htime : op.time = some now) : meter.since ≤ now := by
      rw [List.filterMap_cons_some htime] at htimes
      exact List.rel_of_pairwise_cons htimes List.mem_cons_self
    have hfirst' (reply : Reply) (files' : Files) (hop : step files op = .ok (reply, files')) :
        op.stays files'.state reply := by
      rw [hop] at hfirst
      exact hfirst
    obtain ⟨hold', hheld', hname', hruns'⟩ := step_runs hheld hruns hfirst' hnow
    have hlater : ((meter.watch (stretchWorth lightning) (files.reading op)).since ::
        ops.filterMap Op.time).Pairwise (· ≤ ·) := by
      cases htime : op.time with
      | none =>
        have hnone : files.reading op = [] := List.eq_nil_iff_forall_not_mem.mpr fun reading hreading => by
          rw [Files.reading_time hreading] at htime
          cases htime
        rw [List.filterMap_cons_none htime] at htimes
        rw [hnone]
        exact htimes
      | some now =>
        rw [List.filterMap_cons_some htime, List.pairwise_cons] at htimes
        have hwatched : (meter.watch (stretchWorth lightning) (files.reading op)).since ≤ now :=
          Meter.watch_since_le _ (hnow now htime) fun reading hreading => by
            rw [Files.reading_time hreading] at htime
            exact (Option.some.inj htime).le
        refine List.pairwise_cons.mpr ⟨fun later hlater => ?_, (List.pairwise_cons.mp htimes.2).2⟩
        exact hwatched.trans (List.rel_of_pairwise_cons htimes.2 hlater)
    obtain ⟨hold'', hheld'', hname'', hruns''⟩ := ih hheld' hruns' hrest hlater
    refine ⟨hold'', hheld'', hname''.trans hname', ?_⟩
    rw [Files.readings, Meter.watch_append]
    exact hruns''

theorem Files.readings_le {files : Files} {ops : List Op} {now : ℤ} (h : ∀ time ∈ ops.filterMap Op.time, time ≤ now) :
    ∀ reading ∈ files.readings ops, reading.1 ≤ now := by
  induction ops generalizing files with
  | nil => exact nofun
  | cons op ops ih =>
    intro reading hreading
    rcases List.mem_append.mp hreading with hfirst | hlater
    · exact h _ (List.mem_filterMap.mpr ⟨op, List.mem_cons_self, Files.reading_time hfirst⟩)
    · refine ih (fun time htime => h time ?_) reading hlater
      obtain ⟨other, hother, heq⟩ := List.mem_filterMap.mp htime
      exact List.mem_filterMap.mpr ⟨other, List.mem_cons_of_mem _ hother, heq⟩

def Departure.paid (departure : Departure) : Option ℤ := if departure.left then some departure.earned else none

/-- What a reply says that a hold was paid, if one was. -/
def Reply.paid : Reply → Option ℤ
  | .claim result => if result.status = .taken ∧ result.previousKey ≠ [] then some result.earned else none
  | .raidStart result => if result.status = .leftPlace then some result.earned else none
  | .buy result => result.departure.paid
  | .move result => result.departure.paid
  | .gear result => result.departure.paid
  | _ => none

omit [Clock] in
theorem raidStart_settles {s t : ConquisterState} {userId : ℤ} {username : Str} {now : ℤ} {rules : RaidRules}
    {errand : Errand} {draws : StartDraws} {result : RaidResult} {hold : Holder}
    (h : raidStart s userId username now rules errand draws = .ok (result, t)) (hleft : result.status = .leftPlace)
    (hheld : s.current = some hold) :
    ∃ away settled, away.scores = s.scores ∧ settleHold away hold now = .ok (settled, t) ∧
      settled.earned = result.earned := by
  rw [raidStart] at h
  have hcurrent : (rememberPlatform s username userId).current = s.current := by
    rw [rememberPlatform, rememberIrc, rememberTelegram]
    split_ifs <;> rfl
  have hscores := (rememberPlatform_quiet s username userId).scores
  generalize rememberPlatform s username userId = known at h hcurrent hscores
  split at h
  · rw [rideHome] at h
    split at h
    · cases h
      cases hleft
    · split at h
      · rw [leavePlace, hcurrent, hheld] at h
        dsimp only at h
        split at h
        · cases h
        · rename_i settled away hsettled
          cases h
          exact ⟨{ known with current := none }, settled, hscores, hsettled, rfl⟩
      · cases h
        cases hleft
  · split at h
    · cases h
      cases hleft
    · have hstatus := setOff_status h
      rw [hleft] at hstatus
      cases hstatus

omit [SlotCodec] [Clock] in
theorem goHome_settles {s t : ConquisterState} {player : Str} {now amount : ℤ} {departure : Departure} {hold : Holder}
    (h : goHome s player now = .ok (departure, t)) (hpaid : departure.paid = some amount)
    (hheld : s.current = some hold) :
    ∃ away settled after, away.scores = s.scores ∧ settleHold away hold now = .ok (settled, after) ∧
      settled.earned = amount := by
  rcases goHome_eq_ok h with ⟨rfl, -⟩ | ⟨hold', settled, -, hheld', hsettled, rfl⟩
  · cases hpaid
  · cases hheld.symm.trans hheld'
    cases hpaid
    exact ⟨{ s with current := none }, settled, t, rfl, hsettled, rfl⟩

omit [Clock] in
theorem furnitureBuy_departure {s t : ConquisterState} {username emoji : Str} {position cost : ℤ} {limit : ℕ}
    {now inflation : ℤ} {result : FurnitureResult}
    (h : furnitureBuy s username emoji position cost limit now inflation = .ok (result, t)) :
    ∃ away, goHome s username now = .ok (result.departure, away) := by
  rw [furnitureBuy] at h
  split at h
  · cases h
  · rename_i departure away hgone
    split at h
    · cases h
      exact ⟨_, hgone⟩
    · rw [(buyAtHome_eq (Except.ok.inj h)).1]
      exact ⟨_, hgone⟩

omit [Clock] in
theorem furnitureMove_departure {s t : ConquisterState} {username : Str} {source target : ℤ} {limit : ℕ} {now : ℤ}
    {result : FurnitureMoveResult} (h : furnitureMove s username source target limit now = .ok (result, t)) :
    result.departure = {} ∨ ∃ away, goHome s username now = .ok (result.departure, away) := by
  simp only [furnitureMove] at h
  split at h
  · cases h
    exact .inl rfl
  · split at h
    · cases h
      exact .inl rfl
    · split at h
      · cases h
      · rename_i departure away hgone
        split at h
        · cases h
          exact .inr ⟨_, hgone⟩
        · simp only [moveAtHome] at h
          split at h
          · cases h
            exact .inr ⟨_, hgone⟩
          · cases h
            exact .inr ⟨_, hgone⟩

omit [Clock] in
theorem gearTake_departure {s t : ConquisterState} {player emoji swap : Str} {now : ℤ} {result : GearResult}
    (h : gearTake s player emoji swap now = .ok (result, t)) :
    ∃ away, goHome s player now = .ok (result.departure, away) := by
  rw [gearTake] at h
  split at h
  · cases h
  · rename_i departure away hgone
    refine ⟨away, ?_⟩
    split at h
    · cases h
      exact hgone
    · have hsame : (takeAtHome away departure player emoji swap).1.departure = departure := by
        rw [takeAtHome]
        split
        · rfl
        · split
          · split <;> rfl
          · split <;> rfl
      rw [Except.ok.inj h] at hsame
      rw [hsame]
      exact hgone

omit [Clock] in
theorem gearStore_departure {s t : ConquisterState} {player emoji : Str} {limit : ℕ} {now : ℤ} {result : GearResult}
    (h : gearStore s player emoji limit now = .ok (result, t)) :
    ∃ away, goHome s player now = .ok (result.departure, away) := by
  rw [gearStore] at h
  split at h
  · cases h
  · rename_i departure away hgone
    refine ⟨away, ?_⟩
    split at h
    · cases h
      exact hgone
    · have hsame : (storeAtHome away departure player emoji limit).1.departure = departure := by
        rw [storeAtHome]
        split
        · rfl
        · split <;> rfl
      rw [Except.ok.inj h] at hsame
      rw [hsame]
      exact hgone

/-- Whoever is said to be paid for a hold is paid what settling it comes to. -/
theorem step_settles {files files' : Files} {op : Op} {reply : Reply} {hold : Holder} {amount : ℤ}
    (h : step files op = .ok (reply, files')) (hpaid : reply.paid = some amount)
    (hheld : files.state.current = some hold) :
    ∃ now away settled after, op.time = some now ∧ away.scores = files.state.scores ∧
      settleHold away hold now = .ok (settled, after) ∧ settled.earned = amount := by
  have hgone {player : Str} {now : ℤ} {departure : Departure} (htime : op.time = some now)
      (hgo : ∃ away, goHome files.state player now = .ok (departure, away)) (hleft : departure.paid = some amount) :
      ∃ now away settled after, op.time = some now ∧ away.scores = files.state.scores ∧
        settleHold away hold now = .ok (settled, after) ∧ settled.earned = amount := by
    obtain ⟨away, hgo⟩ := hgo
    obtain ⟨away, settled, after, hscores, hsettled, hearned⟩ := goHome_settles hgo hleft hheld
    exact ⟨now, away, settled, after, htime, hscores, hsettled, hearned⟩
  cases op with
  | claim userId username now rules draws =>
    obtain ⟨result, hclaim, rfl, -⟩ := Files.only_eq_ok h
    rw [Reply.paid] at hpaid
    split at hpaid
    · rename_i htaken
      cases hpaid
      rcases conquisterClaim_cases hclaim with ⟨hkept, -⟩ | ⟨paid, outcome, hin, -, hkicked⟩
      · exact absurd htaken.1 hkept
      · obtain ⟨-, hearned, hkey, -⟩ := enter_cases hin
        obtain ⟨worn, settled, hscores, hsettled, hpays⟩ := hkicked (hkey ▸ htaken.2) hold hheld
        exact ⟨now, worn, settled, paid, rfl, hscores, hsettled, (hearned.trans hpays).symm⟩
    · cases hpaid
  | raidStart userId username now rules errand draws =>
    obtain ⟨result, hstart, rfl, -⟩ := Files.only_eq_ok h
    rw [Reply.paid] at hpaid
    split at hpaid
    · rename_i hleft
      cases hpaid
      obtain ⟨away, settled, hscores, hsettled, hearned⟩ := raidStart_settles hstart hleft hheld
      exact ⟨now, away, settled, files'.state, rfl, hscores, hsettled, hearned⟩
    · cases hpaid
  | buy username emoji position cost limit now inflation =>
    obtain ⟨result, hbuy, rfl, -⟩ := Files.only_eq_ok h
    exact hgone rfl (furnitureBuy_departure hbuy) hpaid
  | move username source target limit now =>
    obtain ⟨result, hmove, rfl, -⟩ := Files.only_eq_ok h
    rcases furnitureMove_departure hmove with hstayed | hgo
    · rw [Reply.paid, hstayed] at hpaid
      cases hpaid
    · exact hgone rfl hgo hpaid
  | take player emoji swap now =>
    obtain ⟨result, htake, rfl, -⟩ := Files.only_eq_ok h
    exact hgone rfl (gearTake_departure htake) hpaid
  | store player emoji limit now =>
    obtain ⟨result, hstore, rfl, -⟩ := Files.only_eq_ok h
    exact hgone rfl (gearStore_departure hstore) hpaid
  | quoteAdd username quote cost =>
    rw [step] at h
    split at h
    · cases h
    · cases h
      cases hpaid
  | raidDue now rules draws =>
    obtain ⟨events, -, rfl, -⟩ := Files.only_eq_ok h
    cases hpaid
  | burn player emoji now rules destroy draws =>
    obtain ⟨result, -, rfl, -⟩ := Files.only_eq_ok h
    cases hpaid
  | link userId username otherName accountName =>
    obtain ⟨status, -, rfl, -⟩ := Files.only_eq_ok h
    cases hpaid
  | _ =>
    cases h
    cases hpaid

theorem claim_opens {files start : Files} {userId : ℤ} {username : Str} {now : ℤ} {rules : ClaimRules}
    {draws : ClaimDraws} {result : ClaimResult}
    (h : step files (.claim userId username now rules draws) = .ok (.claim result, start))
    (htaken : result.status = .taken) (hnow : 0 ≤ now) :
    ∃ hold, start.state.current = some hold ∧ hold.username = username ∧
      hold.Runs rules.lightning ⟨now, carriedCopies start.state username .bolt, 0⟩ := by
  obtain ⟨result', hclaim, heq, -⟩ := Files.only_eq_ok h
  cases heq
  rcases conquisterClaim_cases hclaim with ⟨hkept, -⟩ | ⟨paid, outcome, hin, -, -⟩
  · exact absurd htaken hkept
  · obtain ⟨-, -, -, known, lobsters, hstart⟩ := enter_cases hin
    rw [hstart]
    exact ⟨_, rfl, rfl, newHold_runs known userId username rules.lightning lobsters hnow⟩

/-- A hold that came in at an instant with some ⚡ and is still there after a run: whatever takes him out of the
place and pays him pays, stretch by stretch, the seconds at the percent of the ⚡ he had left, unless the seconds
since he last lost one are too many to multiply or his score too high to add to. -/
theorem hold_paid {files start : Files} {userId : ℤ} {username : Str} {since : ℤ} {rules : ClaimRules}
    {draws : ClaimDraws} {result : ClaimResult}
    (hentered : step files (.claim userId username since rules draws) = .ok (.claim result, start))
    (htaken : result.status = .taken) (hsince : 0 ≤ since) {ops : List Op} (hstays : start.stays ops) {now : ℤ}
    (htimes : (since :: ops.filterMap Op.time ++ [now]).Pairwise (· ≤ ·)) :
    let bolts := carriedCopies start.state username .bolt
    let lost := falls bolts (start.readings ops)
    let earned := bill (stretchWorth rules.lightning) since bolts lost now
    let meter := Meter.follow (stretchWorth rules.lightning) ⟨since, bolts, 0⟩ lost
    ∃ hold, (start.run ops).state.current = some hold ∧ hold.username = username ∧
      (∀ s : ConquisterState, settleHold s hold now =
        if TooLong rules.lightning meter now ∨
            (0 < counter s.scores username ∧ int64Max - counter s.scores username < earned) then
          .error .overflow
        else .ok
          ({ earned := earned, lightning := hold.lightningPercent, zodiacPercent := 100 },
            { s with scores := s.scores.set username (counter s.scores username + earned) })) ∧
      ∀ op reply files' amount, op.time = some now → step (start.run ops) op = .ok (reply, files') →
        reply.paid = some amount → amount = earned := by
  intro bolts lost earned meter
  obtain ⟨opened, hopened, hname, hruns⟩ := claim_opens hentered htaken hsince
  rw [List.cons_append, List.pairwise_cons, List.pairwise_append] at htimes
  obtain ⟨hafter, hsorted, -, hbefore⟩ := htimes
  have hearlier : ∀ time ∈ ops.filterMap Op.time, time ≤ now := fun time htime =>
    hbefore time htime now (List.mem_singleton_self now)
  have hordered : (since :: ops.filterMap Op.time).Pairwise (· ≤ ·) :=
    List.pairwise_cons.mpr ⟨fun time htime => hafter time (List.mem_append_left _ htime), hsorted⟩
  obtain ⟨hold, hheld, hsame, hmeter⟩ := Files.run_runs hopened hruns hstays hordered
  have hnow : meter.since ≤ now :=
    Meter.watch_since_le _ (hafter now (List.mem_append_right _ (List.mem_singleton_self now)))
      (Files.readings_le hearlier)
  have hearned : meter.read (stretchWorth rules.lightning) now = earned :=
    (Meter.read_follow _ _ lost now).trans (zero_add _)
  have hruns' : hold.Runs rules.lightning meter := hmeter
  have hsettle (s : ConquisterState) : settleHold s hold now =
      if TooLong rules.lightning meter now ∨
          (0 < counter s.scores username ∧ int64Max - counter s.scores username < earned) then
        .error .overflow
      else .ok
        ({ earned := earned, lightning := hold.lightningPercent, zodiacPercent := 100 },
          { s with scores := s.scores.set username (counter s.scores username + earned) }) := by
    have heq := hruns'.settleHold_eq hnow s
    rw [hearned, hsame, hname] at heq
    exact heq
  refine ⟨hold, hheld, hsame.trans hname, hsettle, fun op reply files' amount htime hop hpaid => ?_⟩
  obtain ⟨now', away, settled, after, htime', -, hsettled, hamount⟩ := step_settles hop hpaid hheld
  cases htime.symm.trans htime'
  rw [hsettle] at hsettled
  split at hsettled
  · cases hsettled
  · cases hsettled
    exact hamount.symm

end

end

def comesIn : Op := .claim 0 (utf8 "alice") 100 { lightning := 10 } ⟨0, 0⟩

/-- Alice bought two ⚡ and came in with them. -/
def charged : Files :=
  @Files.run _ utc {} (List.replicate 2 (.buy (utf8 "alice") (utf8 "⚡") 0 0 10 0 0) ++ [comesIn])

def losesOne : Op := .burn (utf8 "alice") (utf8 "⚡") 160 {} true ⟨0, 0⟩

/-- A minute at 120 percent, and the rest at 110. -/
theorem hold_paid_alice : (∀ op reply files' amount, op.time = some 200 →
    @step _ utc (@Files.run _ utc charged [losesOne]) op = .ok (reply, files') → reply.paid = some amount →
      amount = 116) ∧
    (@step _ utc (@Files.run _ utc charged [losesOne])
      (.raidStart 0 (utf8 "alice") 200 {} { target := utf8 "alice" } ⟨[], []⟩)).toOption.map (·.1.paid) =
        some (some 116) := by
  let before : Files := @Files.run _ utc {} (List.replicate 2 (.buy (utf8 "alice") (utf8 "⚡") 0 0 10 0 0))
  let result : ClaimResult := { enteredLightning := 120, carriedBefore := utf8 "⚡⚡" }
  have hentered : @step _ utc before comesIn = .ok (.claim result, @Files.after _ utc before comesIn) :=
    @Files.step_eq _ utc before comesIn (.claim result) (by decide +kernel)
  obtain ⟨-, -, -, -, hpaid⟩ := @hold_paid _ utc before _ 0 (utf8 "alice") 100 { lightning := 10 } ⟨0, 0⟩ result
    hentered rfl (by norm_num) [losesOne] (by decide +kernel) 200 (by decide)
  refine ⟨fun op reply files' amount htime hop hamount => ?_, by decide +kernel⟩
  rw [hpaid op reply files' amount htime hop hamount]
  decide +kernel

end NorelecBot
