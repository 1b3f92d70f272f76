import NorelecBot.LandingPassages

/-! # Coming for the place, setting off and turning back, as edits -/

namespace NorelecBot
open Lib

theorem raidOf_eq_none {s : ConquisterState} {player : Str} (h : raidOf s player = none) :
    ∀ raid ∈ s.raids, raid.raider ≠ player := by
  intro raid hraid
  have hfound := List.find?_eq_none.mp h raid hraid
  simpa using hfound

theorem not_holder_of {s : ConquisterState} {player : Str} (h : whereabouts s player ≠ .conquister)
    {hold : Holder} (hheld : s.current = some hold) : hold.username ≠ player := by
  rintro rfl
  refine h ?_
  rw [whereabouts, hheld, Option.any_some, if_pos ((Text.equalsIgnoreCase_iff _ _).mpr rfl)]

variable [SlotCodec]

theorem enter_passage {s t : ConquisterState} {outcome result : ClaimResult} {userId : ℤ} {username : Str}
    {now : ℤ} {rules : ClaimRules} (h : enter s outcome userId username now rules = (result, t))
    (hfree : ∀ raid ∈ s.raids, raid.raider ≠ username) :
    Passage [] s { tended := 1 } t ∧ result.earned = outcome.earned := by
  rw [enter] at h
  obtain ⟨rfl, rfl⟩ := Prod.mk.inj h
  refine ⟨?_, rfl⟩
  let known : ConquisterState := if (s.joined.find username).isSome then
    { s with entered := s.entered.set username 1 } else s
  have hknown : SamePlay s known := by
    dsimp only [known]
    split <;> exact ⟨rfl, rfl, rfl, rfl, rfl, rfl⟩
  refine ((Passage.quiet [] hknown).trans (.edit [] (.enters known _ ?_ rfl) rfl rfl)).entered (zero_add _)
  rw [hknown.raids]
  exact hfree

theorem balloonAttempt_quiet (s : ConquisterState) (player : Str) (site : Whereabouts) (now : ℤ) (draw : ℕ) :
    SamePlay s (balloonAttempt s player site now draw).2 ∧
      (balloonAttempt s player site now draw).2.current = s.current := by
  rw [balloonAttempt]
  split_ifs <;> exact ⟨⟨rfl, rfl, rfl, rfl, rfl, rfl⟩, rfl⟩

theorem kick_passage {s t : ConquisterState} {hold : Holder} {userId : ℤ} {username : Str} {now : ℤ}
    {rules : ClaimRules} {draws : ClaimDraws} {result : ClaimResult}
    (h : kick s hold userId username now rules draws = .ok (result, t)) (hheld : s.current = some hold)
    (hfree : ∀ raid ∈ s.raids, raid.raider ≠ username) :
    ∃ tended, Passage [] s { Receipt.pay result.earned with tended := tended } t := by
  rw [kick] at h
  dsimp only at h
  generalize hsneaked : (!(newcomer s username now && _) && _ && _ && _ : Bool) = sneaked at h
  generalize hfirst : (newcomer s username now && decide (counter s.entered username = 0) : Bool) = first at h
  generalize hattempt : (if (sneaked || first) = true then (BalloonRoll.none, s)
    else balloonAttempt s hold.username .conquister now draws.balloon) = attempt at h
  have hquiet : SamePlay s attempt.2 ∧ attempt.2.current = s.current := by
    rw [← hattempt]
    split
    · exact ⟨⟨rfl, rfl, rfl, rfl, rfl, rfl⟩, rfl⟩
    · exact balloonAttempt_quiet s _ _ now _
  split at h
  · cases h
    refine ⟨0, .unearned [] (hquiet.1.trans ?_)⟩
    split <;> exact ⟨rfl, rfl, rfl, rfl, rfl, rfl⟩
  · generalize hworn : (if (sneaked || first) = true then attempt.2
      else { attempt.2 with balloons := attempt.2.balloons.erase hold.username }) = worn at h
    have hwornQuiet : SamePlay s worn ∧ worn.current = s.current := by
      rw [← hworn]
      split
      · exact hquiet
      · exact ⟨hquiet.1.trans ⟨rfl, rfl, rfl, rfl, rfl, rfl⟩, hquiet.2⟩
    split at h
    · cases h
    · rename_i settled paid hsettled
      have hpaid := settleHold_passage hsettled
        (fun hthrifty => hthrifty hold (hwornQuiet.2.trans hheld)) []
      obtain ⟨-, hpaidIs⟩ := settleHold_eq_ok hsettled
      have hfree' : ∀ raid ∈ paid.raids, raid.raider ≠ username := by
        rw [hpaidIs]
        exact hwornQuiet.1.raids ▸ hfree
      obtain ⟨hin, hearned⟩ := enter_passage (Except.ok.inj h) hfree'
      rw [hearned]
      exact ⟨1, (((Passage.quiet [] hwornQuiet.1).trans hpaid).trans hin).entered (by ext <;> simp)⟩

theorem conquisterClaim_passage {s t : ConquisterState} {userId : ℤ} {username : Str} {now : ℤ}
    {rules : ClaimRules} {draws : ClaimDraws} {result : ClaimResult}
    (h : conquisterClaim s userId username now rules draws = .ok (result, t)) :
    ∃ tended, Passage [] s { Receipt.pay result.earned with tended := tended } t := by
  simp only [conquisterClaim] at h
  have hknown := rememberPlatform_quiet s username userId
  generalize rememberPlatform s username userId = known at h hknown
  split at h
  · cases h
    exact ⟨0, .unearned [] hknown⟩
  · rename_i hroad
    split at h
    · cases h
      exact ⟨0, .unearned [] hknown⟩
    · have hwaited : SamePlay s { known with cooldowns := known.cooldowns.erase username } :=
        hknown.trans ⟨rfl, rfl, rfl, rfl, rfl, rfl⟩
      rw [claimFree] at h
      split at h
      · cases h
        exact ⟨0, .unearned [] hwaited⟩
      · split at h
        · cases h
          exact ⟨0, .unearned [] hwaited⟩
        · split at h
          · obtain ⟨hin, hearned⟩ := enter_passage (Except.ok.inj h) (raidOf_eq_none hroad)
            rw [hearned]
            exact ⟨1, ((Passage.unearned [] hwaited).trans hin).entered (by ext <;> simp)⟩
          · rename_i hold hheld
            obtain ⟨tended, hkick⟩ := kick_passage h (Option.filter_eq_some_iff.mp hheld).1 (raidOf_eq_none hroad)
            exact ⟨tended, ((Passage.quiet [] hwaited).trans hkick).entered (zero_add _)⟩

theorem leavePlace_passage {s t : ConquisterState} {now : ℤ} {settled : Settlement}
    (h : leavePlace s now = .ok (settled, t)) : Passage [] s (.pay settled.earned) t := by
  rw [leavePlace] at h
  split at h
  · cases h
    exact .unearned [] (.refl _)
  · rename_i hold hheld
    obtain ⟨⟨value, hvalue, rfl⟩, rfl⟩ := settleHold_eq_ok h
    have hpaid := Passage.paid [] s hold.username
      fun hs => add_nonneg (holdValue_nonneg hvalue) (hs hold hheld)
    exact (hpaid.trans (.edit [] (.leaves _) rfl rfl)).entered (add_zero _)

omit [SlotCodec] in
theorem onFirst_rewritten (raids : List Raid) (player : Str) {f : Raid → Raid}
    (hf : ∀ raid : Raid, raid.Rewritten (f raid)) : List.Forall₂ Raid.Rewritten raids (onFirst raids player f) := by
  have hsame (raids : List Raid) : List.Forall₂ Raid.Rewritten raids raids :=
    List.forall₂_same.mpr fun _ _ => ⟨rfl, rfl, .inl rfl⟩
  induction raids with
  | nil => exact .nil
  | cons raid raids ih =>
    rw [onFirst]
    split
    · exact .cons (hf raid) (hsame raids)
    · exact .cons ⟨rfl, rfl, .inl rfl⟩ ih

omit [SlotCodec] in
theorem map_onFirst {α : Type*} (raids : List Raid) (player : Str) {f : Raid → Raid} {g : Raid → α}
    (hf : ∀ raid, g (f raid) = g raid) : (onFirst raids player f).map g = raids.map g := by
  induction raids with
  | nil => rfl
  | cons raid raids ih =>
    rw [onFirst]
    split
    · rw [List.map_cons, hf, List.map_cons]
    · rw [List.map_cons, ih, List.map_cons]

omit [SlotCodec] in
theorem turned_rewritten (now : ℤ) (raid : Raid) : raid.Rewritten (raid.turned now) := ⟨rfl, rfl, .inl rfl⟩

omit [SlotCodec] in
theorem onFirst_all {P : Raid → Prop} {raids : List Raid} (h : ∀ raid ∈ raids, P raid) (player : Str)
    {f : Raid → Raid} (hf : ∀ raid ∈ raids, P (f raid)) : ∀ raid ∈ onFirst raids player f, P raid := by
  induction raids with
  | nil => exact h
  | cons first raids ih =>
    have hrest := List.forall_mem_cons.mp h
    rw [onFirst]
    split
    · exact List.forall_mem_cons.mpr ⟨hf first List.mem_cons_self, hrest.2⟩
    · exact List.forall_mem_cons.mpr ⟨hrest.1, ih hrest.2 (List.forall_mem_cons.mp hf).2⟩

theorem turnBack_passage (s : ConquisterState) (username : Str) (now : ℤ) :
    Passage [] s 0 { s with raids := onFirst s.raids username (·.turned now) } := by
  refine (Passage.edit [] (.rides s _ (onFirst_rewritten s.raids username (turned_rewritten now))
    (fun hs => onFirst_all hs.rides username fun raid hraid =>
      ⟨(hs.rides raid hraid).loot, (hs.rides raid hraid).gift, nofun⟩)
    fun _ hs => onFirst_all hs username hs) rfl rfl).entered ?_
  have hpalle : palleRiding (onFirst s.raids username (·.turned now)) = palleRiding s.raids :=
    congrArg List.sum (map_onFirst s.raids username fun _ => rfl)
  have hemoji : emojiRiding (onFirst s.raids username (·.turned now)) = emojiRiding s.raids :=
    congrArg List.sum (map_onFirst s.raids username fun _ => rfl)
  rw [hpalle, hemoji, sub_self, sub_self, Receipt.mk_zero]

theorem rideHome_passage {s t : ConquisterState} {username : Str} {now : ℤ} {result : RaidResult}
    (h : rideHome s username now = .ok (result, t)) : Passage [] s (.pay result.earned) t := by
  rw [rideHome] at h
  split at h
  · cases h
    exact (turnBack_passage s username now).unpaid rfl {0}
  · split at h
    · split at h
      · cases h
      · rename_i hleft
        cases h
        exact leavePlace_passage hleft
    · cases h
      exact .unearned [] (.refl _)

omit [SlotCodec] in
/-- Naming himself, nobody sets off and nothing is taken along. -/
theorem rideHome_status {s t : ConquisterState} {username : Str} {now : ℤ} {result : RaidResult}
    (h : rideHome s username now = .ok (result, t)) :
    result.status = .comingHome ∨ result.status = .leftPlace ∨ result.status = .homeAlready := by
  rw [rideHome] at h
  split at h
  · cases h
    exact .inl rfl
  · split at h
    · split at h
      · cases h
      · cases h
        exact .inr (.inl rfl)
    · cases h
      exact .inr (.inr rfl)

omit [SlotCodec] in
theorem playerId_eq_ok {s t : ConquisterState} {player : Str} {draws : List ℕ} {id : ℤ}
    (h : playerId s player draws = .ok (id, t)) : ∃ ids, t = { s with ids := ids } := by
  rw [playerId] at h
  split at h
  · cases h
    exact ⟨_, rfl⟩
  · split at h
    · cases h
    · cases h
      exact ⟨_, rfl⟩

theorem takePalle_passage (s : ConquisterState) (username : Str) {gift : ℤ}
    (hgift : Solvent s → gift ≤ counter s.scores username) :
    Passage [] s { palle := -gift } (takePalle s username gift) := by
  rw [takePalle]
  split
  · rename_i hzero
    exact (Passage.refl [] s).entered (by rw [hzero, neg_zero, Receipt.mk_zero])
  · refine (Passage.score [] s username _ fun hs => sub_nonneg.mpr (hgift hs)).entered ?_
    rw [sub_sub_cancel_left]

theorem takeEmoji_isSome {s : ConquisterState} {username known : Str} {errand : Errand} {limit : ℕ}
    (h : cannotCarry s username known errand limit = none) (hemoji : errand.giftEmoji ≠ []) :
    (takeEmoji s username errand.giftEmoji).isSome := by
  simp only [cannotCarry, if_neg hemoji] at h
  rw [takeEmoji]
  split
  · rfl
  · rename_i hgear
    rw [Option.isSome_map]
    by_contra hhouse
    rw [if_pos (by simpa [hgear] using hhouse)] at h
    cases h

theorem takeAlong_passage {s : ConquisterState} {username known : Str} {errand : Errand} {limit : ℕ}
    (h : cannotCarry s username known errand limit = none) :
    Passage [] s { emoji := -unit errand.giftEmoji } (takeAlong s username errand.giftEmoji) := by
  rw [takeAlong]
  split
  · rename_i hempty
    exact (Passage.refl [] s).entered (by rw [hempty, unit_nil, neg_zero, Receipt.mk_zero])
  · rename_i hemoji
    obtain ⟨taken, htaken⟩ := Option.isSome_iff_exists.mp (takeEmoji_isSome h hemoji)
    rw [htaken, Option.getD_some]
    exact takeEmoji_passage htaken

theorem off_passage (s : ConquisterState) (raid : Raid)
    (hnew : raid.arrived = false ∧ raid.loot = 0 ∧ 0 ≤ raid.gift)
    (hfree : ∀ other ∈ s.raids, other.raider ≠ raid.raider)
    (haway : ∀ hold, s.current = some hold → hold.username ≠ raid.raider) :
    Passage [raid.giftEmoji] s
      { palle := raid.gift, emoji := unit raid.giftEmoji, setOff := {(raid.raider, raid.target)} }
      { s with raids := s.raids ++ [raid] } := by
  refine ⟨{raid.giftEmoji}, 0, le_rfl, .single (.setOff s raid hnew hfree haway), ?_, fun _ _ hpaid => (by cases hpaid)⟩
  intro P _ _ hinputs emoji hemoji
  rw [Multiset.mem_singleton.mp hemoji]
  exact hinputs _ List.mem_cons_self

def Errand.ride (errand : Errand) (username known : Str) (now seconds : ℤ) : Raid :=
  { raider := username, target := known, arrive := now + seconds, back := now + 2 * seconds
    gift := errand.gift, giftEmoji := errand.giftEmoji, intact := errand.intact }

/-- What he can carry is a matter of his house and where the target is. -/
theorem cannotCarry_takePalle (s : ConquisterState) (username known : Str) (gift : ℤ) (errand : Errand) (limit : ℕ) :
    cannotCarry (takePalle s username gift) username known errand limit =
      cannotCarry s username known errand limit := by
  rw [takePalle]
  split <;> rfl

theorem depart_eq_ok {s t : ConquisterState} {outcome result : RaidResult} {username known : Str} {now : ℤ}
    {rules : RaidRules} {errand : Errand} {draws : StartDraws}
    (h : depart s outcome username known now rules errand draws = .ok (result, t)) :
    result.status = .started ∧ result.earned = outcome.earned ∧
      ∃ ids, t = { s with
        ids := ids, raids := s.raids ++ [errand.ride username known now result.seconds] } := by
  rw [depart] at h
  split at h
  · cases h
  · rename_i settled hsettled
    split at h
    · cases h
    · rename_i mapped hmapped
      obtain ⟨ids, rfl⟩ := playerId_eq_ok hsettled
      obtain ⟨ids', rfl⟩ := playerId_eq_ok hmapped
      obtain ⟨rfl, rfl⟩ := Prod.mk.inj (Except.ok.inj h)
      exact ⟨rfl, rfl, ids', rfl⟩

theorem depart_passage {s t : ConquisterState} {outcome result : RaidResult} {username known : Str} {now : ℤ}
    {rules : RaidRules} {errand : Errand} {draws : StartDraws} (hgift : 0 ≤ errand.gift)
    (hfree : ∀ raid ∈ s.raids, raid.raider ≠ username)
    (haway : ∀ hold, s.current = some hold → hold.username ≠ username)
    (h : depart s outcome username known now rules errand draws = .ok (result, t)) :
    Passage [errand.giftEmoji] s
      { palle := errand.gift, emoji := unit errand.giftEmoji, setOff := {(username, known)} } t := by
  obtain ⟨-, -, ids, rfl⟩ := depart_eq_ok h
  have hquiet : SamePlay s { s with ids := ids } := ⟨rfl, rfl, rfl, rfl, rfl, rfl⟩
  have hoff := off_passage { s with ids := ids } (errand.ride username known now result.seconds)
    ⟨rfl, rfl, hgift⟩ hfree haway
  exact ((Passage.quiet _ hquiet).trans hoff).entered (zero_add _)

/-- The palle that are gone from the score of somebody who does not set off after all. -/
def RaidResult.forfeited (result : RaidResult) (errand : Errand) : ℤ :=
  if result.status = .noSuchEmoji ∨ result.status = .handsFull ∨ result.status = .noRoom
  then errand.gift else 0

def RaidResult.off (result : RaidResult) (username : Str) (known : Option Str) : Multiset (Str × Str) :=
  if result.status = .started then (known.map fun target => (username, target)).elim 0 ({·}) else 0

omit [SlotCodec] in
theorem takePalle_fields (s : ConquisterState) (username : Str) (gift : ℤ) :
    (takePalle s username gift).raids = s.raids ∧ (takePalle s username gift).current = s.current := by
  rw [takePalle]
  split <;> exact ⟨rfl, rfl⟩

theorem takeAlong_fields (s : ConquisterState) (username giftEmoji : Str) :
    (takeAlong s username giftEmoji).raids = s.raids ∧
      (takeAlong s username giftEmoji).current = s.current := by
  rw [takeAlong, takeEmoji]
  split
  · exact ⟨rfl, rfl⟩
  · split
    · exact ⟨rfl, rfl⟩
    · cases slotHolding s username giftEmoji <;> exact ⟨rfl, rfl⟩

theorem cannotCarry_eq_some {s : ConquisterState} {username known : Str} {errand : Errand} {limit : ℕ}
    {status : RaidStatus} (h : cannotCarry s username known errand limit = some status) :
    status = .noSuchEmoji ∨ status = .handsFull ∨ status = .noRoom := by
  simp only [cannotCarry] at h
  split at h
  · cases h
  · split at h
    · cases h
      exact .inl rfl
    · split at h
      · cases h
        exact .inr (.inl rfl)
      · split at h
        · cases h
          exact .inr (.inr rfl)
        · cases h

theorem load_passage {s t : ConquisterState} {username known : Str} {now : ℤ} {rules : RaidRules}
    {errand : Errand} {draws : StartDraws} {result : RaidResult} (hgift : 0 ≤ errand.gift)
    (hscore : Solvent s → errand.gift ≤ counter s.scores username)
    (hfree : ∀ raid ∈ s.raids, raid.raider ≠ username)
    (haway : ∀ hold, s.current = some hold → hold.username ≠ username)
    (h : load s username known now rules errand draws = .ok (result, t)) :
    Passage [errand.giftEmoji] s
      { palle := -result.forfeited errand, setOff := result.off username (some known) } t ∧
      result.earned = 0 := by
  have hpalle := (takePalle_passage s username hscore).mono (List.nil_subset [errand.giftEmoji])
  have hfields := takePalle_fields s username errand.gift
  rw [load] at h
  dsimp only at h
  split at h
  · rename_i status hcannot
    obtain ⟨rfl, rfl⟩ := Prod.mk.inj (Except.ok.inj h)
    have hstatus := cannotCarry_eq_some hcannot
    refine ⟨hpalle.entered ?_, rfl⟩
    have hnot : status ≠ .started := by rcases hstatus with rfl | rfl | rfl <;> exact nofun
    rw [RaidResult.forfeited, RaidResult.off, if_pos hstatus, if_neg hnot]
  · rename_i hcan
    have halong := takeAlong_passage hcan
    obtain ⟨hraids, hcurrent⟩ := takeAlong_fields (takePalle s username errand.gift) username errand.giftEmoji
    have hoff := depart_passage hgift (by rw [hraids, hfields.1]; exact hfree)
      (by rw [hcurrent, hfields.2]; exact haway) h
    obtain ⟨hstatus, hearned, -⟩ := depart_eq_ok h
    refine ⟨((hpalle.trans (halong.mono (List.nil_subset _))).trans hoff).entered ?_, hearned⟩
    rw [RaidResult.forfeited, RaidResult.off, hstatus]
    ext <;> simp

theorem setOff_passage {s t : ConquisterState} {username known : Str} {now : ℤ} {rules : RaidRules}
    {errand : Errand} {draws : StartDraws} {result : RaidResult}
    (h : setOff s username known now rules errand draws = .ok (result, t)) :
    Passage [errand.giftEmoji] s
      { palle := -result.forfeited errand, setOff := result.off username (some known) } t ∧
      result.earned = 0 := by
  rw [setOff] at h
  split at h
  · cases h
    exact ⟨.refl _ _, rfl⟩
  · rename_i hroad
    split at h
    · cases h
      exact ⟨.refl _ _, rfl⟩
    · split at h
      · cases h
        exact ⟨.refl _ _, rfl⟩
      · split at h
        · cases h
          exact ⟨.refl _ _, rfl⟩
        · rename_i hplace
          split at h
          · cases h
            exact ⟨.refl _ _, rfl⟩
          · rename_i hgift
            split at h
            · cases h
              exact ⟨.refl _ _, rfl⟩
            · rename_i hscore
              refine load_passage (not_lt.mp hgift) (fun hs => ?_) (raidOf_eq_none hroad)
                (fun hold hheld => not_holder_of hplace hheld) h
              have hnonneg := hs.scores username
              omega

/-- What a line that was meant for home comes to. -/
def RaidStatus.homeward : RaidStatus → Bool
  | .leftPlace => true
  | .comingHome => true
  | .homeAlready => true
  | _ => false

/-- Whoever names somebody else is never told that he is on his way home. -/
theorem setOff_status {s t : ConquisterState} {username known : Str} {now : ℤ} {rules : RaidRules}
    {errand : Errand} {draws : StartDraws} {result : RaidResult}
    (h : setOff s username known now rules errand draws = .ok (result, t)) : result.status.homeward = false := by
  rw [setOff] at h
  split at h
  · cases h
    rfl
  · split_ifs at h
    iterate 5
      · cases h
        rfl
    rw [load] at h
    dsimp only at h
    split at h
    · rename_i status hcannot
      cases h
      rcases cannotCarry_eq_some hcannot with rfl | rfl | rfl <;> rfl
    · rw [(depart_eq_ok h).1]
      rfl

theorem raidStart_passage {s t : ConquisterState} {userId : ℤ} {username : Str} {now : ℤ}
    {rules : RaidRules} {errand : Errand} {draws : StartDraws} {result : RaidResult}
    (h : raidStart s userId username now rules errand draws = .ok (result, t)) :
    Passage [errand.giftEmoji] s
      (.pay result.earned +
        { palle := -result.forfeited errand
          setOff := result.off username
            (playerByName (rememberPlatform s username userId) errand.target errand.kind) }) t := by
  rw [raidStart] at h
  have hknown := rememberPlatform_quiet s username userId
  generalize rememberPlatform s username userId = known at h hknown
  split at h
  · have hhome := (rideHome_passage h).mono (List.nil_subset [errand.giftEmoji])
    refine ((Passage.quiet _ hknown).trans hhome).entered ?_
    rcases rideHome_status h with hstatus | hstatus | hstatus <;>
      simp [RaidResult.forfeited, RaidResult.off, hstatus]
  · split at h
    · cases h
      exact .unearned _ hknown
    · rename_i target htarget
      obtain ⟨hoff, hearned⟩ := setOff_passage h
      rw [htarget, hearned]
      exact (Passage.unearned _ hknown).trans hoff

end NorelecBot
