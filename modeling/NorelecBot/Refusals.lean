import NorelecBot.PalleBooks

/-! # What a refusal leaves behind

An operation that says no leaves the state alone, up to what it says: where the
sender plays is remembered, an expired penalty is dropped, and whoever held the
place has left it for his line. The one refusal that keeps something is the ride
whose palle are taken before its emoji is looked for.
-/

namespace NorelecBot
open Lib

def Reply.Refusal : Reply → Prop
  | .claim result => result.status ≠ .taken ∧ result.status ≠ .defended
  | .raidStart result => result.status ≠ .started ∧ result.status ≠ .leftPlace ∧ result.status ≠ .comingHome
  | .buy result => result.status ≠ .bought
  | .move result => result.status ≠ .moved ∧ result.status ≠ .swapped
  | .burn result => result.status ≠ .burned
  | .palleBurn result => result.status ≠ .burned
  | .gear result => result.status ≠ .taken ∧ result.status ≠ .swapped ∧ result.status ≠ .stored
  | .quoteAdd result => result.status ≠ .added
  | _ => False

/-- The player held the place if he is told that he left it, and was paid what he is told. Whose hold it
is goes by his name, whatever the case. -/
def Departed (state : ConquisterState) (player : Str) (departure : Departure) (after : ConquisterState) : Prop :=
  if departure.left then
    ∃ hold, state.current = some hold ∧ Text.equalsIgnoreCase hold.username player = true ∧
      after = { state with
        current := none
        scores := state.scores.set hold.username (counter state.scores hold.username + departure.earned) }
  else after = state

/-- The state after an operation that says no is the one before it, but for what it announces. -/
def Op.LeavesAlone (state after : ConquisterState) : Op → Reply → Prop
  | .claim userId username now _ _, _ =>
    let known := rememberPlatform state username userId
    after = known ∨ (∃ expiry, known.cooldowns.find username = some expiry ∧ expiry ≤ now) ∧
      after = { known with cooldowns := known.cooldowns.erase username }
  | .raidStart userId username _ _ _ _, _ => after = rememberPlatform state username userId
  | .buy username _ _ _ _ _ _, .buy result => Departed state username result.departure after
  | .move username _ _ _ _, .move result => Departed state username result.departure after
  | .take player _ _ _, .gear result => Departed state player result.departure after
  | .store player _ _ _, .gear result => Departed state player result.departure after
  | _, _ => after = state

theorem leavePlace_eq_ok {s t : ConquisterState} {now : ℤ} {hold : Holder} {settled : Settlement}
    (hhold : s.current = some hold) (h : leavePlace s now = .ok (settled, t)) :
    t = { s with
      current := none
      scores := s.scores.set hold.username (counter s.scores hold.username + settled.earned) } := by
  rw [leavePlace, hhold] at h
  simp only [settleHold] at h
  split at h
  · cases h
  · split at h
    · cases h
    · cases h
      rfl

theorem goHome_departed {s t : ConquisterState} {player : Str} {now : ℤ} {departure : Departure}
    (h : goHome s player now = .ok (departure, t)) : Departed s player departure t := by
  rw [goHome] at h
  split at h
  · cases h
    rfl
  · rename_i hplace
    rw [not_not, whereabouts_conquister, Option.any_eq_true] at hplace
    obtain ⟨hold, hhold, hplayer⟩ := hplace
    split at h
    · cases h
    · rename_i settled away hleave
      cases h
      exact ⟨hold, hhold, hplayer, leavePlace_eq_ok hhold hleave⟩

section
variable [SlotCodec]

theorem furnitureBuy_refused {s t : ConquisterState} {username emoji : Str} {position cost : ℤ} {limit : ℕ}
    {now inflation : ℤ} {result : FurnitureResult}
    (h : furnitureBuy s username emoji position cost limit now inflation = .ok (result, t))
    (hstatus : result.status ≠ .bought) : Departed s username result.departure t := by
  rw [furnitureBuy] at h
  split at h
  · cases h
  · rename_i departure away hgo
    have hdeparted := goHome_departed hgo
    split at h
    · cases h
      exact hdeparted
    · obtain ⟨hdeparture, ⟨-, rfl⟩ | ⟨hbought, -⟩⟩ := buyAtHome_eq (Except.ok.inj h)
      · rw [hdeparture]
        exact hdeparted
      · exact absurd hbought hstatus

theorem furnitureMove_refused {s t : ConquisterState} {username : Str} {source target : ℤ} {limit : ℕ}
    {now : ℤ} {result : FurnitureMoveResult}
    (h : furnitureMove s username source target limit now = .ok (result, t))
    (hmoved : result.status ≠ .moved) (hswapped : result.status ≠ .swapped) :
    Departed s username result.departure t := by
  simp only [furnitureMove] at h
  split at h
  · cases h
    rfl
  · split at h
    · cases h
      rfl
    · split at h
      · cases h
      · rename_i departure away hgo
        have hdeparted := goHome_departed hgo
        split at h
        · cases h
          exact hdeparted
        · have hdone := Except.ok.inj h
          simp only [moveAtHome] at hdone
          split at hdone
          · cases hdone
            exact hdeparted
          · cases hdone
            dsimp only at hmoved hswapped
            split at hmoved
            · exact absurd rfl hmoved
            · rename_i hfull
              exact absurd (if_neg hfull) hswapped

theorem gearTake_refused {s t : ConquisterState} {player emoji swap : Str} {now : ℤ} {result : GearResult}
    (h : gearTake s player emoji swap now = .ok (result, t)) (htaken : result.status ≠ .taken)
    (hswapped : result.status ≠ .swapped) : Departed s player result.departure t := by
  rw [gearTake] at h
  split at h
  · cases h
  · rename_i departure away hgo
    have hdeparted := goHome_departed hgo
    split at h
    · cases h
      exact hdeparted
    · have hdone := Except.ok.inj h
      rw [takeAtHome] at hdone
      split at hdone
      · cases hdone
        exact hdeparted
      · split at hdone
        · split at hdone
          · cases hdone
            exact hdeparted
          · cases hdone
            dsimp only at htaken hswapped
            split at htaken
            · exact absurd rfl htaken
            · rename_i hout
              exact absurd (if_neg hout) hswapped
        · split at hdone
          · cases hdone
            exact hdeparted
          · cases hdone
            exact absurd rfl htaken

theorem gearStore_refused {s t : ConquisterState} {player emoji : Str} {limit : ℕ} {now : ℤ}
    {result : GearResult} (h : gearStore s player emoji limit now = .ok (result, t))
    (hstored : result.status ≠ .stored) : Departed s player result.departure t := by
  rw [gearStore] at h
  split at h
  · cases h
  · rename_i departure away hgo
    have hdeparted := goHome_departed hgo
    split at h
    · cases h
      exact hdeparted
    · have hdone := Except.ok.inj h
      rw [storeAtHome] at hdone
      split at hdone
      · cases hdone
        exact hdeparted
      · split at hdone
        · cases hdone
          exact hdeparted
        · cases hdone
          exact absurd rfl hstored

omit [SlotCodec] in
theorem palleBurn_refused {s : ConquisterState} {player : Str} {amount : ℤ}
    (h : (palleBurn s player amount).1.status ≠ .burned) : (palleBurn s player amount).2 = s := by
  revert h
  simp only [palleBurn]
  split_ifs
  · exact fun _ => rfl
  · exact fun _ => rfl
  · exact fun _ => rfl
  · exact fun h => absurd rfl h

omit [SlotCodec] in
theorem quoteAdd_refused {s t : ConquisterState} {quotes quotes' : Quotes} {username quote : Str} {cost : ℤ}
    {result : QuoteAddResult} (h : quoteAdd s quotes username quote cost = .ok (result, t, quotes'))
    (hstatus : result.status ≠ .added) : t = s ∧ quotes' = quotes := by
  simp only [quoteAdd] at h
  split_ifs at h
  · cases h
    exact ⟨rfl, rfl⟩
  · cases h
    exact ⟨rfl, rfl⟩
  · cases h
    exact absurd rfl hstatus

theorem furnitureBurn_refused {s t : ConquisterState} {player emoji : Str} {now : ℤ} {rules : RaidRules}
    {destroy : Bool} {draws : LandDraws} {result : FurnitureBurnResult}
    (h : furnitureBurn s player emoji now rules destroy draws = .ok (result, t))
    (hstatus : result.status ≠ .burned) : t = s := by
  rcases furnitureBurn_passage h with ⟨-, hsame⟩ | ⟨hburned, -⟩ | ⟨hburned, -⟩
  · exact hsame
  · exact absurd hburned hstatus
  · exact absurd hburned hstatus

omit [SlotCodec] in
theorem takePalle_eq_self_iff (s : ConquisterState) (username : Str) (gift : ℤ) :
    takePalle s username gift = s ↔ gift = 0 := by
  constructor
  · intro hsame
    by_contra hgift
    have hscore := congrArg (fun state : ConquisterState => counter state.scores username) hsame
    simp only [takePalle, if_neg hgift, counter_set_self] at hscore
    omega
  · intro hgift
    rw [takePalle, if_pos hgift]

/-- A ride that does not leave leaves his palle behind, wherever they are now. -/
theorem load_refused {s t : ConquisterState} {username known : Str} {now : ℤ} {rules : RaidRules}
    {errand : Errand} {draws : StartDraws} {result : RaidResult}
    (h : load s username known now rules errand draws = .ok (result, t)) (hstatus : result.status ≠ .started) :
    t = takePalle s username (result.forfeited errand) := by
  rw [load] at h
  dsimp only at h
  split at h
  · rename_i status hcannot
    cases h
    rw [RaidResult.forfeited, if_pos (cannotCarry_eq_some hcannot)]
  · exact absurd (depart_eq_ok h).1 hstatus

theorem setOff_refused {s t : ConquisterState} {username known : Str} {now : ℤ} {rules : RaidRules}
    {errand : Errand} {draws : StartDraws} {result : RaidResult}
    (h : setOff s username known now rules errand draws = .ok (result, t)) (hstatus : result.status ≠ .started) :
    t = takePalle s username (result.forfeited errand) := by
  rw [setOff] at h
  split at h
  · cases h
    rfl
  · split_ifs at h
    iterate 5
      · cases h
        rfl
    exact load_refused h hstatus

omit [SlotCodec] in
theorem rideHome_refused {s t : ConquisterState} {username : Str} {now : ℤ} {result : RaidResult}
    (h : rideHome s username now = .ok (result, t)) (hleft : result.status ≠ .leftPlace)
    (hcoming : result.status ≠ .comingHome) : t = s ∧ result.status = .homeAlready := by
  rw [rideHome] at h
  split at h
  · cases h
    exact absurd rfl hcoming
  · split at h
    · split at h
      · cases h
      · cases h
        exact absurd rfl hleft
    · cases h
      exact ⟨rfl, rfl⟩

theorem raidStart_refused {s t : ConquisterState} {userId : ℤ} {username : Str} {now : ℤ} {rules : RaidRules}
    {errand : Errand} {draws : StartDraws} {result : RaidResult}
    (h : raidStart s userId username now rules errand draws = .ok (result, t))
    (hrefusal : (Reply.raidStart result).Refusal) :
    t = takePalle (rememberPlatform s username userId) username (result.forfeited errand) := by
  obtain ⟨hstarted, hleft, hcoming⟩ := hrefusal
  rw [raidStart] at h
  generalize rememberPlatform s username userId = known at h ⊢
  split at h
  · obtain ⟨hsame, hhome⟩ := rideHome_refused h hleft hcoming
    rw [RaidResult.forfeited, hhome]
    exact hsame
  · split at h
    · cases h
      rfl
    · exact setOff_refused h hstarted

theorem kick_status {s t : ConquisterState} {hold : Holder} {userId : ℤ} {username : Str} {now : ℤ}
    {rules : ClaimRules} {draws : ClaimDraws} {result : ClaimResult}
    (h : kick s hold userId username now rules draws = .ok (result, t)) :
    result.status = .defended ∨ result.status = .taken := by
  rw [kick] at h
  dsimp only at h
  generalize (!(newcomer s username now && _) && _ && _ && _ : Bool) = sneaked at h
  generalize (newcomer s username now && decide (counter s.entered username = 0) : Bool) = first at h
  generalize (if (sneaked || first) = true then (BalloonRoll.none, s)
    else balloonAttempt s hold.username .conquister now draws.balloon) = attempt at h
  split at h
  · cases h
    exact Or.inl rfl
  · split at h
    · cases h
    · cases h
      exact Or.inr rfl

theorem claimFree_refused {s t : ConquisterState} {userId : ℤ} {username : Str} {now : ℤ}
    {rules : ClaimRules} {draws : ClaimDraws} {result : ClaimResult}
    (h : claimFree s userId username now rules draws = .ok (result, t))
    (htaken : result.status ≠ .taken) (hdefended : result.status ≠ .defended) : t = s := by
  rw [claimFree] at h
  split at h
  · cases h
    rfl
  · split at h
    · cases h
      rfl
    · split at h
      · cases h
        exact absurd rfl htaken
      · rcases kick_status h with hstatus | hstatus
        · exact absurd hstatus hdefended
        · exact absurd hstatus htaken

omit [SlotCodec] in
theorem erase_of_absent {counters : Counters} {player : Str} (h : counters.find player = none) :
    counters.erase player = counters := by
  apply OrderedMap.ext
  have hout : player ∉ counters.keys := OrderedMap.find_eq_none.mp h
  refine List.filter_eq_self.mpr fun entry hentry => ?_
  have hother : entry.1 ≠ player := fun hsame => hout (hsame ▸ List.mem_map_of_mem hentry)
  simpa using hother

theorem conquisterClaim_refused {s t : ConquisterState} {userId : ℤ} {username : Str} {now : ℤ}
    {rules : ClaimRules} {draws : ClaimDraws} {result : ClaimResult}
    (h : conquisterClaim s userId username now rules draws = .ok (result, t))
    (hrefusal : (Reply.claim result).Refusal) :
    (Op.claim userId username now rules draws).LeavesAlone s t (.claim result) := by
  obtain ⟨htaken, hdefended⟩ := hrefusal
  simp only [conquisterClaim] at h
  simp only [Op.LeavesAlone]
  generalize rememberPlatform s username userId = known at h ⊢
  split at h
  · cases h
    exact Or.inl rfl
  · split at h
    · cases h
      exact Or.inl rfl
    · rename_i hover
      have hfree := claimFree_refused h htaken hdefended
      cases hpenalty : known.cooldowns.find username with
      | none =>
        rw [erase_of_absent hpenalty] at hfree
        exact Or.inl hfree
      | some expiry =>
        have hexpired : expiry ≤ now := by
          simpa [cooldownLeft, hpenalty] using hover
        exact Or.inr ⟨⟨expiry, rfl, hexpired⟩, hfree⟩

variable [Clock]

/-- A refusal leaves everything alone exactly when it keeps no palle for a ride whose emoji cannot go. -/
theorem refusal_leaves_alone_iff {files files' : Files} {op : Op} {reply : Reply}
    (h : step files op = .ok (reply, files')) (hrefusal : reply.Refusal) :
    (op.LeavesAlone files.state files'.state reply ∧ files'.quotes = files.quotes) ↔ ¬ op.Forfeits files.state := by
  have hquiet (halone : op.LeavesAlone files.state files'.state reply) (hquotes : files'.quotes = files.quotes)
      (hother : ¬ op.Forfeits files.state) :
      (op.LeavesAlone files.state files'.state reply ∧ files'.quotes = files.quotes) ↔
        ¬ op.Forfeits files.state := iff_of_true ⟨halone, hquotes⟩ hother
  cases op with
  | claim userId username now rules draws =>
    obtain ⟨result, hrun, rfl, hquotes⟩ := Files.only_eq_ok h
    exact hquiet (conquisterClaim_refused hrun hrefusal) hquotes id
  | raidStart userId username now rules errand draws =>
    obtain ⟨result, hrun, rfl, hquotes⟩ := Files.only_eq_ok h
    have hstate := raidStart_refused hrun hrefusal
    rw [← raidStart_forfeited hrun, not_not]
    simp only [Op.LeavesAlone, hquotes, and_true]
    rw [hstate, takePalle_eq_self_iff]
  | buy username emoji position cost limit now inflation =>
    obtain ⟨result, hrun, rfl, hquotes⟩ := Files.only_eq_ok h
    exact hquiet (furnitureBuy_refused hrun hrefusal) hquotes id
  | move username source target limit now =>
    obtain ⟨result, hrun, rfl, hquotes⟩ := Files.only_eq_ok h
    exact hquiet (furnitureMove_refused hrun hrefusal.1 hrefusal.2) hquotes id
  | burn player emoji now rules destroy draws =>
    obtain ⟨result, hrun, rfl, hquotes⟩ := Files.only_eq_ok h
    exact hquiet (furnitureBurn_refused hrun hrefusal) hquotes id
  | palleBurn player amount =>
    cases h
    exact hquiet (palleBurn_refused hrefusal) rfl id
  | take player emoji swap now =>
    obtain ⟨result, hrun, rfl, hquotes⟩ := Files.only_eq_ok h
    exact hquiet (gearTake_refused hrun hrefusal.1 hrefusal.2.1) hquotes id
  | store player emoji limit now =>
    obtain ⟨result, hrun, rfl, hquotes⟩ := Files.only_eq_ok h
    exact hquiet (gearStore_refused hrun hrefusal.2.2) hquotes id
  | quoteAdd username quote cost =>
    rw [step] at h
    split at h
    · cases h
    · rename_i result state quotes hrun
      cases h
      obtain ⟨hstate, hquotes⟩ := quoteAdd_refused hrun hrefusal
      exact hquiet hstate hquotes id
  | raidDue now rules draws =>
    obtain ⟨result, hrun, rfl, hquotes⟩ := Files.only_eq_ok h
    exact absurd hrefusal id
  | link userId username otherName accountName =>
    obtain ⟨result, hrun, rfl, hquotes⟩ := Files.only_eq_ok h
    exact absurd hrefusal id
  | _ =>
    cases h
    exact absurd hrefusal id

end

def tooGenerous : Errand := { present with gift := 40 }

theorem refusal_leaves_alone_short : ∃ reply files',
    @step _ utc { state := pocket } (setsOff tooGenerous) = .ok (reply, files') ∧ reply.Refusal ∧
    ((setsOff tooGenerous).LeavesAlone pocket files'.state reply ∧ files'.quotes = [] ↔
      ¬ (setsOff tooGenerous).Forfeits pocket) := by
  refine ⟨_, _, rfl, ?_, @refusal_leaves_alone_iff _ utc { state := pocket } _ (setsOff tooGenerous) _ rfl ?_⟩
  · exact ⟨by decide, by decide, by decide⟩
  · exact ⟨by decide, by decide, by decide⟩

/-- Told that she has no 🍕, she has four palle less. -/
theorem refusal_keeps_palle : ∃ reply files',
    @step _ utc { state := pocket } (setsOff emptyHanded) = .ok (reply, files') ∧ reply.Refusal ∧
    ¬ (setsOff emptyHanded).LeavesAlone pocket files'.state reply := by
  refine ⟨_, _, rfl, ?_, ?_⟩
  · exact ⟨by decide, by decide, by decide⟩
  intro halone
  have hscore := congrArg (fun state : ConquisterState => counter state.scores (utf8 "alice")) halone
  revert hscore
  decide +kernel

end NorelecBot
