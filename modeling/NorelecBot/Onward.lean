import NorelecBot.Bystanders
import NorelecBot.Linking

/-! # Who is on the road, and who is on file

A ride under way is somebody's who set off; it never changes hands, and until it
arrives it is as it was when it set off. The register is written when somebody is
seen or linked, and at no other time.
-/

namespace NorelecBot
open Lib

/-- Every ride is one that was there, and the same but for what happens to it once it has arrived. -/
def Onward (before after : List Raid) : Prop :=
  ∀ raid ∈ after, ∃ old ∈ before, raid.raider = old.raider ∧ raid.target = old.target ∧
    (raid.arrived = false → raid = old)

namespace Onward
variable {before after later : List Raid}

theorem refl (raids : List Raid) : Onward raids raids := fun raid h => ⟨raid, h, rfl, rfl, fun _ => rfl⟩

theorem nil (raids : List Raid) : Onward raids [] := fun _ h => absurd h List.not_mem_nil

theorem of_subset (h : ∀ raid ∈ after, raid ∈ before) : Onward before after :=
  fun raid hraid => ⟨raid, h raid hraid, rfl, rfl, fun _ => rfl⟩

theorem trans (h : Onward before after) (hnext : Onward after later) : Onward before later := by
  intro raid hraid
  obtain ⟨old, hold, hraider, htarget, hsame⟩ := hnext raid hraid
  obtain ⟨older, holder, hraider', htarget', hsame'⟩ := h old hold
  refine ⟨older, holder, hraider.trans hraider', htarget.trans htarget', fun hwaiting => ?_⟩
  have hold' := hsame hwaiting
  rw [hold'] at hwaiting
  exact hold'.trans (hsame' hwaiting)

/-- Rewriting rides that have arrived, or are over by that. -/
theorem map (raids : List Raid) {f : Raid → Raid}
    (hf : ∀ raid, (f raid).raider = raid.raider ∧ (f raid).target = raid.target ∧
      ((f raid).arrived = false → f raid = raid)) : Onward raids (raids.map f) := by
  intro raid hraid
  obtain ⟨old, hold, rfl⟩ := List.mem_map.mp hraid
  exact ⟨old, hold, hf old⟩

theorem callOff (raids : List Raid) (player : Str) (now : ℤ) : Onward raids (callOff raids player now) := by
  apply Onward.map
  intro raid
  split
  · exact ⟨rfl, rfl, by simp [Raid.calledOff]⟩
  · exact ⟨rfl, rfl, fun _ => rfl⟩

theorem struckRides (raids : List Raid) (victim : Str) (reset : Bool) (now : ℤ) :
    Onward raids (struckRides raids victim reset now) := by
  rw [NorelecBot.struckRides]
  split
  · exact .callOff raids victim now
  · exact .refl raids

/-- The ride at an index has arrived. -/
theorem set {raids : List Raid} {index : ℕ} {raid raid' : Raid} (h : raids[index]? = some raid)
    (hsettled : raid.Settled raid') : Onward raids (raids.set index raid') := by
  intro other hother
  rcases List.mem_or_eq_of_mem_set hother with hold | rfl
  · exact ⟨other, hold, rfl, rfl, fun _ => rfl⟩
  · refine ⟨raid, List.mem_of_getElem? h, hsettled.raider, hsettled.target, fun hwaiting => ?_⟩
    rw [hsettled.arrived] at hwaiting
    cases hwaiting

theorem turned (raids : List Raid) (player : Str) (now : ℤ) :
    Onward raids (onFirst raids player fun raid => raid.turned now) := by
  induction raids with
  | nil => exact .refl []
  | cons raid raids ih =>
    intro other hother
    rw [onFirst] at hother
    split at hother
    · rcases List.mem_cons.mp hother with rfl | hrest
      · exact ⟨raid, List.mem_cons_self, rfl, rfl, by simp [Raid.turned]⟩
      · exact ⟨other, List.mem_cons_of_mem _ hrest, rfl, rfl, fun _ => rfl⟩
    · rcases List.mem_cons.mp hother with rfl | hrest
      · exact ⟨other, List.mem_cons_self, rfl, rfl, fun _ => rfl⟩
      · obtain ⟨old, hold, hkept⟩ := ih other hrest
        exact ⟨old, List.mem_cons_of_mem _ hold, hkept⟩

end Onward

/-- A ride rewritten where it stands, as far as a view of it is the same. -/
theorem map_set_same {α : Type*} {raids : List Raid} {index : ℕ} {raid raid' : Raid} (h : raids[index]? = some raid)
    (view : Raid → α) (hsame : view raid' = view raid) : (raids.set index raid').map view = raids.map view := by
  obtain ⟨hlt, hget⟩ := List.getElem?_eq_some_iff.mp h
  rw [List.map_set, hsame, ← hget, ← List.getElem_map view (h := by simpa using hlt), List.set_getElem_self]

theorem map_struckRides {α : Type*} (view : Raid → α) (hview : ∀ raid now, view (raid.calledOff now) = view raid)
    (raids : List Raid) (victim : Str) (reset : Bool) (now : ℤ) :
    (struckRides raids victim reset now).map view = raids.map view := by
  rw [struckRides]
  cases reset with
  | false => rfl
  | true =>
    rw [if_pos rfl, callOff, List.map_map]
    apply List.map_congr_left
    intro raid _
    change view (if raid.raider = victim then raid.calledOff now else raid) = view raid
    by_cases hvictim : raid.raider = victim
    · rw [if_pos hvictim, hview]
    · rw [if_neg hvictim]

section
variable [SlotCodec] [Clock]

theorem settleRide_onward {s t : ConquisterState} {index : ℕ} {now : ℤ} {rules : RaidRules} {draws : RaidDraws}
    {events : List RaidEvent} (h : settleRide s index now rules draws = .ok (events, t)) :
    Onward s.raids t.raids := by
  rw [settleRide] at h
  split at h
  · cases h
  · rename_i arrived there harrived
    cases h
    rw [(settleHomecoming_round there index now).2]
    rw [settleArrival] at harrived
    split at harrived
    · cases harrived
      exact .refl _
    · rename_i raid hraid
      split at harrived
      · rename_i hdue
        split at harrived
        · cases harrived
        · rename_i event after harrival
          cases harrived
          have hfresh : raid.arrived = false := by
            simp only [Raid.due, Bool.and_eq_true, Bool.not_eq_true'] at hdue
            exact hdue.1
          obtain ⟨-, raid', hsettled, hafter, -⟩ := arrival_round hraid hraid hfresh harrival
          rw [hafter]
          exact (Onward.set hraid hsettled).trans (.struckRides _ _ _ _)
      · cases harrived
        exact .refl _

theorem settleRides_onward {now : ℤ} {rules : RaidRules} {draws : ℕ → RaidDraws} {count index : ℕ}
    {s t : ConquisterState} {events : List RaidEvent}
    (h : settleRides now rules draws count index s = .ok (events, t)) : Onward s.raids t.raids := by
  induction count generalizing index s events with
  | zero =>
    cases h
    exact .refl _
  | succ count ih =>
    rw [settleRides] at h
    split at h
    · cases h
    · rename_i first settled hfirst
      split at h
      · cases h
      · rename_i others after hothers
        cases h
        exact (settleRide_onward hfirst).trans (ih hothers)

theorem raidDue_onward {s t : ConquisterState} {now : ℤ} {rules : RaidRules} {draws : DueDraws}
    {events : List RaidEvent} (h : raidDue s now rules draws = .ok (events, t)) : Onward s.raids t.raids := by
  simp only [raidDue] at h
  split at h
  · cases h
  · rename_i walked after hwalk
    cases h
    have hbefore := (beforeRides_aside s now rules draws).raids
    have hwalked := settleRides_onward hwalk
    rw [hbefore] at hwalked
    exact hwalked.trans (.of_subset fun raid hraid => (List.mem_filter.mp hraid).1)

omit [SlotCodec] [Clock] in
theorem introduce_raids (s : ConquisterState) (userId : ℤ) (username accountName : Str) (now : ℤ) :
    (introduce s userId username accountName now).raids = s.raids := by
  simp only [introduce, join, rememberPlatform, rememberIrc, rememberTelegram, showName, takeName, bindAccount]
  split_ifs <;> rfl

omit [SlotCodec] [Clock] in
theorem introduce_joined (s : ConquisterState) (userId : ℤ) (username accountName : Str) (now : ℤ) :
    (introduce s userId username accountName now).joined =
      if now > 0 ∧ counter s.welcomed (keyFor s userId username accountName) = 0 ∧
          (s.joined.find (keyFor s userId username accountName)).isNone
      then s.joined.set (keyFor s userId username accountName) now else s.joined := by
  simp only [introduce]
  generalize keyFor s userId username accountName = key
  have hnamed : (rememberPlatform (showName (takeName (bindAccount s userId username accountName) userId username key)
      userId username key) key userId).joined = s.joined ∧
      (rememberPlatform (showName (takeName (bindAccount s userId username accountName) userId username key)
        userId username key) key userId).welcomed = s.welcomed := by
    simp only [rememberPlatform, rememberIrc, rememberTelegram, showName, takeName, bindAccount]
    split_ifs <;> exact ⟨rfl, rfl⟩
  rw [join, hnamed.1, hnamed.2]
  split
  · rfl
  · exact hnamed.1

/-- The day is counted elsewhere, and the welcome is no business of the register's. -/
theorem playerSeen_register (s : ConquisterState) (userId : ℤ) (username accountName : Str) (limit : ℕ) (now : ℤ) :
    register (playerSeen s userId username accountName limit now).2 =
      register (introduce s userId username accountName now) := by
  have hwelcome := welcome_aside (introduce s userId username accountName now)
    (keyFor s userId username accountName) limit
  rw [← hwelcome.register]
  simp only [playerSeen, countDay]
  split_ifs <;> rfl

theorem playerSeen_raids (s : ConquisterState) (userId : ℤ) (username accountName : Str) (limit : ℕ) (now : ℤ) :
    (playerSeen s userId username accountName limit now).2.raids = s.raids := by
  have hwelcome := welcome_aside (introduce s userId username accountName now)
    (keyFor s userId username accountName) limit
  rw [← introduce_raids s userId username accountName now, ← hwelcome.raids]
  simp only [playerSeen, countDay]
  split_ifs <;> rfl

omit [Clock] in
theorem playerLink_raids {s t : ConquisterState} {userId : ℤ} {username otherName accountName : Str}
    {status : LinkStatus} (h : playerLink s userId username otherName accountName = .ok (status, t)) :
    t.raids = s.raids ∧ t.joined = s.joined := by
  simp only [playerLink] at h
  split at h
  · cases h
    exact ⟨rfl, rfl⟩
  · split at h
    · cases h
      exact ⟨rfl, rfl⟩
    · split at h
      · split at h
        · cases h
          exact ⟨rfl, rfl⟩
        · split at h
          · cases h
            exact ⟨rfl, rfl⟩
          · have hboth := Except.ok.inj h
            rw [linkBoth] at hboth
            split_ifs at hboth <;> cases hboth <;> exact ⟨rfl, rfl⟩
      · cases h

/-- Whether an operation writes down who is who. -/
def Op.registers : Op → Bool
  | .seen .. | .link .. => true
  | _ => false

/-- Coming for the place and setting off, the sender's platform is noted. -/
def Op.remembers (state : ConquisterState) : Op → ConquisterState
  | .claim userId username .. => rememberPlatform state username userId
  | .raidStart userId username .. => rememberPlatform state username userId
  | _ => state

/-- What an operation does to the rides: somebody sets off or turns back, the keeper makes his round, the whole
game starts over, or nothing. -/
inductive RidesOn (files : Files) : Op → Reply → Files → Prop
  | same {op : Op} {reply : Reply} {files' : Files} (same : files'.state.raids = files.state.raids) :
      RidesOn files op reply files'
  | start {userId : ℤ} {username : Str} {now : ℤ} {rules : RaidRules} {errand : Errand} {draws : StartDraws}
      {result : RaidResult} {files' : Files}
      (setsOff : SetsOff files.state userId username now rules errand result files'.state.raids) :
      RidesOn files (.raidStart userId username now rules errand draws) (.raidStart result) files'
  | due {now : ℤ} {rules : RaidRules} {draws : DueDraws} {events : List RaidEvent} {files' : Files}
      (round : raidDue files.state now rules draws = .ok (events, files'.state)) :
      RidesOn files (.raidDue now rules draws) (.raidDue events) files'
  | burn {player emoji : Str} {now : ℤ} {rules : RaidRules} {destroy : Bool} {draws : LandDraws}
      {result : FurnitureBurnResult} {files' : Files} (rides : result.reset = false ∧
        files'.state.raids = files.state.raids ∨ result.reset = true ∧ files'.state.raids = []) :
      RidesOn files (.burn player emoji now rules destroy draws) (.burn result) files'

/-- What an operation other than being seen or linked does to the register and the rides. -/
structure Files.Goes (files : Files) (op : Op) (reply : Reply) (files' : Files) : Prop where
  register : op.registers = false → register files'.state = register (op.remembers files.state)
  rides : RidesOn files op reply files'

theorem Files.Goes.aside {files files' : Files} {op : Op} {reply : Reply}
    (hraids : (op.remembers files.state).raids = files.state.raids)
    (h : Aside (op.remembers files.state) files'.state) : files.Goes op reply files' :=
  ⟨fun _ => h.register, .same (h.raids.trans hraids)⟩

theorem step_goes {files files' : Files} {op : Op} {reply : Reply} (h : step files op = .ok (reply, files')) :
    files.Goes op reply files' := by
  cases op with
  | claim userId username now rules draws =>
    obtain ⟨result, hclaim, -, -⟩ := Files.only_eq_ok h
    exact .aside (rememberPlatform_raids _ _ _) (conquisterClaim_aside hclaim).toAside
  | raidStart userId username now rules errand draws =>
    obtain ⟨result, hstart, rfl, -⟩ := Files.only_eq_ok h
    obtain ⟨hbooks, hoff⟩ := raidStart_setsOff hstart
    exact ⟨fun _ => hbooks.register, .start hoff⟩
  | raidDue now rules draws =>
    obtain ⟨events, hdue, rfl, -⟩ := Files.only_eq_ok h
    exact ⟨fun _ => (raidDue_books hdue).register, .due hdue⟩
  | buy username emoji position cost limit now inflation =>
    obtain ⟨result, hbuy, -, -⟩ := Files.only_eq_ok h
    exact .aside rfl (furnitureBuy_aside hbuy).toAside
  | move username source target limit now =>
    obtain ⟨result, hmove, -, -⟩ := Files.only_eq_ok h
    exact .aside rfl (furnitureMove_aside hmove).toAside
  | burn player emoji now rules destroy draws =>
    obtain ⟨result, hburn, rfl, -⟩ := Files.only_eq_ok h
    obtain ⟨hbooks, hrides⟩ := furnitureBurn_rides hburn
    exact ⟨fun _ => hbooks.register, .burn hrides⟩
  | palleBurn player amount =>
    cases h
    exact .aside rfl (palleBurn_aside files.state player amount).toAside
  | take player emoji swap now =>
    obtain ⟨result, htake, -, -⟩ := Files.only_eq_ok h
    exact .aside rfl (gearTake_aside htake).toAside
  | store player emoji limit now =>
    obtain ⟨result, hstore, -, -⟩ := Files.only_eq_ok h
    exact .aside rfl (gearStore_aside hstore).toAside
  | sortOut =>
    cases h
    exact .aside rfl (equipmentSortOut_aside files.state).toAside
  | seen userId username accountName furnitureLimit now =>
    have hraids := playerSeen_raids files.state userId username accountName furnitureLimit now
    cases h
    exact ⟨by simp [Op.registers], .same hraids⟩
  | link userId username otherName accountName =>
    obtain ⟨status, hlink, -, -⟩ := Files.only_eq_ok h
    exact ⟨by simp [Op.registers], .same (playerLink_raids hlink).1⟩
  | handOut furnitureLimit =>
    cases h
    exact .aside rfl (balloonsHandOut_aside files.state furnitureLimit).toAside
  | quoteAdd username quote cost =>
    rw [step] at h
    split at h
    · cases h
    · rename_i result state quotes hadd
      cases h
      exact .aside rfl (quoteAdd_aside hadd)
  | quoteDelete selector =>
    have haside := quoteDelete_aside files.state files.quotes selector
    rw [step] at h
    split at h
    rename_i removed state quotes hdelete
    cases h
    rw [hdelete] at haside
    exact .aside rfl haside
  | guide player =>
    cases h
    exact .aside rfl (guideDue_aside files.state player).toAside
  | invite newcomer inviter platform now =>
    have haside := inviteRecord_aside files.state newcomer inviter platform now
    rw [step] at h
    split at h
    rename_i status shown state hrecord
    cases h
    rw [hrecord] at haside
    exact .aside rfl haside
  | reward newcomer samePerson =>
    cases h
    exact .aside rfl (inviteDue_aside files.state newcomer samePerson)
  | debug username wanted =>
    cases h
    exact .aside rfl ⟨rfl, rfl⟩

/-- However they go on, nobody's ride changes hands, unless somebody sets off. -/
theorem RidesOn.onward {files files' : Files} {op : Op} {reply : Reply} (h : RidesOn files op reply files') :
    Onward files.state.raids files'.state.raids ∨ ∃ userId username now rules errand draws result target,
      op = .raidStart userId username now rules errand draws ∧ reply = .raidStart result ∧
      ¬ homewards (rememberPlatform files.state username userId) userId username errand = true ∧
      playerByName (rememberPlatform files.state username userId) errand.target errand.kind = some target ∧
      (errand.blow = true → newcomer files.state target now = false) ∧
      FitToGo files.state username target now rules errand ∧
      files'.state.raids = files.state.raids ++ [errand.ride username target now result.seconds] := by
  cases h with
  | same same => exact Or.inl (same ▸ .refl _)
  | start setsOff =>
    cases setsOff with
    | stays notOff notTurned same => exact Or.inl (same ▸ .refl _)
    | turns comes riding turned => exact Or.inl (turned ▸ .turned _ _ _)
    | off target started away known fair fit pushed =>
      exact Or.inr ⟨_, _, _, _, _, _, _, target, rfl, rfl, away, known, fair, fit, pushed⟩
  | due round => exact Or.inl (raidDue_onward round)
  | burn rides =>
    rcases rides with ⟨-, hsame⟩ | ⟨-, hnone⟩
    · exact Or.inl (hsame ▸ .refl _)
    · exact Or.inl (hnone ▸ .nil _)

end

end NorelecBot
