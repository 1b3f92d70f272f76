import NorelecBot.Runs
import NorelecBot.Watch.Memory
import NorelecBot.Watch.Walk

/-! # What the game tells the sentinel

A ride is told where it is put on the list and a homecoming where the keeper walks
the list, both before the files are saved; a try at the place is told once they
are. The sentinel is no part of what a failed save takes back.
-/

namespace NorelecBot.Watch
open Lib

/-- One thing it has seen, and of whom. -/
inductive Record where
  | act (player : Str) (act : Act)
  | back (player : Str) (time : ℤ)
  | robbed (victim : Str) (robbery : ℤ × Str)
  deriving DecidableEq, Repr

def Player.records (key : Str) (player : Player) : List Record :=
  player.acts.map (Record.act key) ++ player.backs.map (Record.back key) ++ player.robbedBy.map (Record.robbed key)

def Memory.records (memory : Memory) : List Record :=
  memory.players.entries.flatMap fun entry => entry.2.records entry.1

def Told.records : Told → List Record
  | .ride player target gift now => [.act player ⟨now, if gift then .gives else .robs, target⟩]
  | .claim player now => [.act player ⟨now, .claims, []⟩]
  | .back player now => [.back player now]
  | .robbed victim robber now => [.robbed victim (now, robber)]
  | .heard _ _ _ _ => []
  | .link _ _ => []

@[simp] theorem records_seen (key : Str) (player : Player) (now : ℤ) :
    (player.seen now).records key = player.records key := by
  rw [Player.seen]
  by_cases hnever : player.firstSeen = 0
  · rw [if_pos hnever]
    rfl
  · rw [if_neg hnever]

theorem records_acts (key : Str) (player : Player) (act : Act) :
    (Player.records key { player with acts := player.acts ++ [act] }).Perm (player.records key ++ [Record.act key act]) := by
  have hmove := (@List.perm_append_comm _ [Record.act key act]
    (player.backs.map (Record.back key) ++ player.robbedBy.map (Record.robbed key))).append_left
      (player.acts.map (Record.act key))
  simpa [Player.records] using hmove

theorem records_backs (key : Str) (player : Player) (now : ℤ) :
    (Player.records key { player with backs := player.backs ++ [now] }).Perm
      (player.records key ++ [Record.back key now]) := by
  have hmove := (@List.perm_append_comm _ [Record.back key now] (player.robbedBy.map (Record.robbed key))).append_left
    (player.acts.map (Record.act key) ++ player.backs.map (Record.back key))
  simpa [Player.records] using hmove

theorem start_players (memory : Memory) (now : ℤ) :
    (neverForget now (memory.start now)).players = memory.players := by
  rw [neverForget, Memory.start]
  by_cases hzero : memory.started = 0
  · rw [if_pos hzero]
  · rw [if_neg hzero]

theorem records_player (memory : Memory) (key : Str) (now : ℤ) {change : Player → Player} {more : List Record}
    (hchange : ∀ player : Player, ((change player).records key).Perm (player.records key ++ more)) :
    (memory.player neverForget key now change).records.Perm (memory.records ++ more) := by
  simp only [Memory.player, Memory.records, start_players]
  apply KeyMap.flatMap_alter_perm
  apply (hchange _).trans
  rw [records_seen]
  cases memory.players.find key with
  | none => exact List.Perm.refl _
  | some player => exact List.Perm.refl _

/-- Each thing told is one record more. -/
theorem records_tell (memory : Memory) (told : Told) :
    (memory.tell neverForget told).records.Perm (memory.records ++ told.records) := by
  cases told with
  | ride player target gift now =>
    exact records_player memory player now fun found => records_acts player found _
  | claim player now =>
    exact records_player memory player now fun found => records_acts player found _
  | back player now =>
    exact records_player memory player now fun found => records_backs player found now
  | robbed victim robber now =>
    apply records_player memory victim now
    intro found
    rw [Player.records, Player.records, List.map_append, ← List.append_assoc]
    exact List.Perm.refl _
  | heard identity host command now =>
    simp only [Memory.tell, Memory.heard, Memory.records, Told.records, start_players, List.append_nil]
    exact List.Perm.refl _
  | link identity player =>
    simp only [Memory.tell, Memory.link, Memory.records, Told.records, List.append_nil]
    exact List.Perm.refl _

theorem records_tellAll (memory : Memory) (told : List Told) :
    (memory.tellAll neverForget told).records.Perm (memory.records ++ told.flatMap Told.records) := by
  induction told generalizing memory with
  | nil => simp [Memory.tellAll]
  | cons one told ih =>
    have hrest := ih (memory.tell neverForget one)
    rw [List.flatMap_cons, ← List.append_assoc]
    exact hrest.trans ((records_tell memory one).append_right _)

/-- A thrown emoji is a blow, not a present. -/
def present (errand : Errand) : Bool :=
  errand.gift ≠ 0 || (errand.giftEmoji ≠ [] && (errand.intact || !isThrown errand.giftEmoji))

section
variable [SlotCodec]

/-- The ride is told just before it is put on the list, the last thing done. -/
def raidStartTold (state : ConquisterState) (userId : ℤ) (username : Str) (now : ℤ) (rules : RaidRules)
    (errand : Errand) (draws : StartDraws) : List Told :=
  match raidStart state userId username now rules errand draws with
  | .error _ => []
  | .ok (result, _) =>
    match result.status, playerByName (rememberPlatform state username userId) errand.target errand.kind with
    | .started, some known => [.ride username known (present errand) now]
    | _, _ => []

/-- The rides that come home in a round, up to where it is stopped. -/
def homecomings [Clock] (copies : ℕ → Bool) (state : ConquisterState) (now : ℤ) (rules : RaidRules) (draws : DueDraws) :
    List Raid :=
  comesHome copies now rules draws.ride (beforeRides state now rules draws).2.raids.length 0
    (beforeRides state now rules draws).2

def homecomingTold (now : ℤ) (raid : Raid) : List Told :=
  .back raid.raider now :: if raid.loot > 0 then [.robbed raid.target raid.raider now] else []

end

/-- The three calls of the game that tell it something. -/
inductive Call where
  | raidStart (userId : ℤ) (username : Str) (now : ℤ) (rules : RaidRules) (errand : Errand) (draws : StartDraws)
  | raidDue (now : ℤ) (rules : RaidRules) (draws : DueDraws)
  | claim (userId : ℤ) (username : Str) (now : ℤ) (rules : ClaimRules) (draws : ClaimDraws)

def Call.op : Call → Op
  | .raidStart userId username now rules errand draws => .raidStart userId username now rules errand draws
  | .raidDue now rules draws => .raidDue now rules draws
  | .claim userId username now rules draws => .claim userId username now rules draws

def Call.toldAfter : Call → List Told
  | .claim _ username now _ _ => [.claim username now]
  | _ => []

/-- A call, whether a copy of the file could be kept at each place of the list where one is, and whether what it changes
could be saved. -/
structure Attempt where
  call : Call
  copies : ℕ → Bool
  saves : Bool

section
variable [SlotCodec] [Clock]

/-- What is told before the files are saved, up to the end or an exception. -/
def Attempt.toldBefore (files : Files) (attempt : Attempt) : List Told :=
  match attempt.call with
  | .raidStart userId username now rules errand draws =>
    raidStartTold files.state userId username now rules errand draws
  | .raidDue now rules draws => (homecomings attempt.copies files.state now rules draws).flatMap (homecomingTold now)
  | .claim .. => []

/-- Whether every copy it came to could be kept. -/
def Attempt.copied (files : Files) (attempt : Attempt) : Bool :=
  match attempt.call with
  | .raidDue now rules draws =>
    walksOn attempt.copies now rules draws.ride (beforeRides files.state now rules draws).2.raids.length 0
      (beforeRides files.state now rules draws).2
  | _ => true

/-- What is returned, with the files then; nothing when the call throws. -/
def Attempt.outcome (files : Files) (attempt : Attempt) : Option (Reply × Files) :=
  match step files attempt.call.op with
  | .error _ => none
  | .ok (reply, files') =>
    if attempt.copied files ∧ (attempt.saves ∨ files' = files) then some (reply, files') else none

structure Watched where
  files : Files
  memory : Memory

def Watched.after (world : Watched) (attempt : Attempt) : Watched :=
  match attempt.outcome world.files with
  | none => { world with memory := world.memory.tellAll neverForget (attempt.toldBefore world.files) }
  | some (_, files') =>
    { files := files'
      memory := world.memory.tellAll neverForget (attempt.toldBefore world.files ++ attempt.call.toldAfter) }

def Watched.run (world : Watched) (attempts : List Attempt) : Watched := attempts.foldl Watched.after world

def homeRecords (now : ℤ) (event : RaidEvent) (ride : Str × Str) : List Record :=
  .back ride.1 now :: if event.loot > 0 then [.robbed ride.2 (now, ride.1)] else []

/-- Whose rides a round says are home, and to whom they were: those at the places it says it of. -/
def homeOf (state : ConquisterState) (now : ℤ) (rules : RaidRules) (draws : DueDraws) : List (Str × Str) :=
  ((roundEvents now rules draws.ride (beforeRides state now rules draws).2.raids.length 0
    (beforeRides state now rules draws).2).filter fun said => Returned said.2).map
      fun said => (pairs state).getD said.1 ([], [])

/-- The records for what a call returned: one for a ride that started, to whom it was sent and for what, one or two for
each homecoming, and one for a try at the place. -/
def Call.owed (files : Files) : Call → Reply → List Record
  | .raidStart userId username now _ errand _, .raidStart result =>
    if result.status = .started then
      (playerByName (rememberPlatform files.state username userId) errand.target errand.kind).elim []
        fun known => [.act username ⟨now, if present errand then .gives else .robs, known⟩]
    else []
  | .raidDue now rules draws, .raidDue events =>
    (List.zipWith (homeRecords now) (events.filter Returned) (homeOf files.state now rules draws)).flatten
  | .claim _ username now _ _, .claim _ => [.act username ⟨now, .claims, []⟩]
  | _, _ => []

/-- The records owed for what a whole run returned. -/
def Watched.owed : Watched → List Attempt → List Record
  | _, [] => []
  | world, attempt :: attempts =>
    ((attempt.outcome world.files).elim [] fun outcome => attempt.call.owed world.files outcome.1) ++
      (world.after attempt).owed attempts

omit [SlotCodec] [Clock] in
/-- The ids once somebody has his, as far as the numbers drawn for it go. -/
def withId (ids : Counters) (player : Str) (draws : List ℕ) : Option Counters :=
  match ids.find player with
  | some _ => some ids
  | none => (freshId ids draws).map fun drawn => ids.set player drawn

omit [Clock] in
/-- Somebody else is named who is known, nothing keeps the sender and what he takes from the road, and both have a house. -/
def SetsOut (state : ConquisterState) (userId : ℤ) (username : Str) (now : ℤ) (rules : RaidRules) (errand : Errand)
    (draws : StartDraws) : Prop :=
  homewards (rememberPlatform state username userId) userId username errand = false ∧
    ∃ target, playerByName (rememberPlatform state username userId) errand.target errand.kind = some target ∧
      (errand.blow = true → newcomer state target now = false) ∧ FitToGo state username target now rules errand ∧
        ((withId state.ids username draws.home).bind fun ids => withId ids target draws.theirs).isSome

/-- Whoever sets off has to be saved, and so has a round that brings anybody home, all the way to its end. -/
def Attempt.Meets (files : Files) (attempt : Attempt) : Prop :=
  match attempt.call with
  | .raidStart userId username now rules errand draws =>
    SetsOut files.state userId username now rules errand draws → attempt.saves = true
  | .raidDue now rules draws =>
    bringsHome attempt.copies now rules draws.ride (beforeRides files.state now rules draws).2.raids.length 0
        (beforeRides files.state now rules draws).2 = true →
      walksOn attempt.copies now rules draws.ride (beforeRides files.state now rules draws).2.raids.length 0
        (beforeRides files.state now rules draws).2 = true ∧ attempt.saves = true
  | .claim .. => True

def Watched.AllMeet : Watched → List Attempt → Prop
  | _, [] => True
  | world, attempt :: attempts => attempt.Meets world.files ∧ (world.after attempt).AllMeet attempts

end

theorem rideHome_status {s t : ConquisterState} {username : Str} {now : ℤ} {result : RaidResult}
    (h : rideHome s username now = .ok (result, t)) : result.status ≠ .started := by
  rw [rideHome] at h
  cases hride : raidOf s username with
  | some travelling =>
    rw [hride] at h
    cases h
    simp
  | none =>
    rw [hride] at h
    dsimp only at h
    by_cases hplace : whereabouts s username = .conquister
    · rw [if_pos hplace] at h
      cases hleave : leavePlace s now with
      | error failure =>
        rw [hleave] at h
        cases h
      | ok outcome =>
        rw [hleave] at h
        cases h
        simp
    · rw [if_neg hplace] at h
      cases h
      simp

section
variable [SlotCodec]

/-- Whoever sets off has a target that is known. -/
theorem target_known {s t : ConquisterState} {userId : ℤ} {username : Str} {now : ℤ} {rules : RaidRules}
    {errand : Errand} {draws : StartDraws} {result : RaidResult}
    (h : raidStart s userId username now rules errand draws = .ok (result, t)) (hstarted : result.status = .started) :
    ∃ known, playerByName (rememberPlatform s username userId) errand.target errand.kind = some known := by
  simp only [raidStart] at h
  by_cases hhome : homewards (rememberPlatform s username userId) userId username errand = true
  · rw [if_pos hhome] at h
    exact absurd hstarted (rideHome_status h)
  · rw [if_neg hhome] at h
    cases hknown : playerByName (rememberPlatform s username userId) errand.target errand.kind with
    | none =>
      rw [hknown] at h
      cases h
      cases hstarted
    | some known => exact ⟨known, rfl⟩

theorem raidStartTold_started {s t : ConquisterState} {userId : ℤ} {username : Str} {now : ℤ} {rules : RaidRules}
    {errand : Errand} {draws : StartDraws} {result : RaidResult}
    (h : raidStart s userId username now rules errand draws = .ok (result, t)) (hstarted : result.status = .started) :
    ∃ known, raidStartTold s userId username now rules errand draws = [.ride username known (present errand) now] := by
  obtain ⟨known, hknown⟩ := target_known h hstarted
  refine ⟨known, ?_⟩
  simp only [raidStartTold, h, hstarted, hknown]

theorem raidStartTold_other {s t : ConquisterState} {userId : ℤ} {username : Str} {now : ℤ} {rules : RaidRules}
    {errand : Errand} {draws : StartDraws} {result : RaidResult}
    (h : raidStart s userId username now rules errand draws = .ok (result, t)) (hstarted : result.status ≠ .started) :
    raidStartTold s userId username now rules errand draws = [] := by
  simp only [raidStartTold, h]
  cases hstatus : result.status with
  | started => exact absurd hstatus hstarted
  | _ => rfl

theorem takeAlong_ids (s : ConquisterState) (username giftEmoji : Str) : (takeAlong s username giftEmoji).ids = s.ids := by
  rw [takeAlong]
  by_cases hnothing : giftEmoji = []
  · rw [if_pos hnothing]
  · rw [if_neg hnothing, takeEmoji]
    cases gearSlotHolding s username giftEmoji with
    | some found => rfl
    | none => cases slotHolding s username giftEmoji <;> rfl

omit [SlotCodec] in
theorem takePalle_ids (s : ConquisterState) (username : Str) (gift : ℤ) : (takePalle s username gift).ids = s.ids := by
  rw [takePalle]
  by_cases hnothing : gift = 0
  · rw [if_pos hnothing]
  · rw [if_neg hnothing]

omit [SlotCodec] in
theorem playerId_withId (s : ConquisterState) (player : Str) (draws : List ℕ) :
    (∃ id settled, playerId s player draws = .ok (id, settled) ∧ withId s.ids player draws = some settled.ids) ∨
      (∃ failure, playerId s player draws = .error failure) ∧ withId s.ids player draws = none := by
  rw [playerId, withId]
  cases s.ids.find player with
  | some found => exact .inl ⟨found, s, rfl, rfl⟩
  | none =>
    cases freshId s.ids draws with
    | some drawn => exact .inl ⟨drawn, _, rfl, rfl⟩
    | none => exact .inr ⟨⟨_, rfl⟩, rfl⟩

theorem depart_isOk (s : ConquisterState) (outcome : RaidResult) (username known : Str) (now : ℤ) (rules : RaidRules)
    (errand : Errand) (draws : StartDraws) :
    (∃ result t, depart s outcome username known now rules errand draws = .ok (result, t)) ↔
      ((withId s.ids username draws.home).bind fun ids => withId ids known draws.theirs).isSome := by
  rw [depart]
  rcases playerId_withId s username draws.home with ⟨id, settled, hid, hids⟩ | ⟨⟨failure, hid⟩, hids⟩
  · rw [hid, hids]
    dsimp only
    rw [Option.bind_some]
    rcases playerId_withId settled known draws.theirs with ⟨id', mapped, hid', hids'⟩ | ⟨⟨failure, hid'⟩, hids'⟩
    · rw [hid', hids']
      simp
    · rw [hid', hids']
      simp
  · rw [hid, hids]
    simp

/-- With all the checks passed, the rest is what he takes along and his departure. -/
theorem raidStart_depart {s : ConquisterState} {userId : ℤ} {username target : Str} {now : ℤ} {rules : RaidRules}
    {errand : Errand} {draws : StartDraws}
    (haway : homewards (rememberPlatform s username userId) userId username errand = false)
    (hknown : playerByName (rememberPlatform s username userId) errand.target errand.kind = some target)
    (hfair : errand.blow = true → newcomer s target now = false) (hfit : FitToGo s username target now rules errand) :
    ∃ known outcome, known.ids = s.ids ∧ known.raids = s.raids ∧ raidStart s userId username now rules errand draws =
      depart known outcome username target now rules errand draws := by
  have hplatform : ∃ telegramIds ircNames, rememberPlatform s username userId =
      { s with telegramIds := telegramIds, ircNames := ircNames } := by
    rw [rememberPlatform, rememberIrc, rememberTelegram]
    split_ifs <;> exact ⟨_, _, rfl⟩
  simp only [raidStart]
  rw [haway, hknown]
  obtain ⟨telegramIds, ircNames, hsame⟩ := hplatform
  rw [hsame]
  have hblow : (errand.blow && newcomer { s with telegramIds := telegramIds, ircNames := ircNames } target now) = false := by
    cases hblow : errand.blow with
    | false => rfl
    | true => exact hfair hblow
  have hfree : raidOf { s with telegramIds := telegramIds, ircNames := ircNames } username = none := hfit.free
  have hthawed : ¬ frozenFor { s with telegramIds := telegramIds, ircNames := ircNames } username now > 0 :=
    not_lt.mpr hfit.thawed
  have hplace : ¬ whereabouts { s with telegramIds := telegramIds, ircNames := ircNames } username = .conquister :=
    hfit.notInPlace
  have hrich : ¬ (errand.gift > 0 ∧
      errand.gift > counter ({ s with telegramIds := telegramIds, ircNames := ircNames } : ConquisterState).scores username) :=
    fun hpoor => not_lt.mpr (hfit.affords hpoor.1) hpoor.2
  have hcarries : cannotCarry (takePalle { s with telegramIds := telegramIds, ircNames := ircNames } username errand.gift)
      username target errand rules.furnitureLimit = none := by
    rw [cannotCarry_takePalle]
    exact hfit.carries
  refine ⟨takeAlong (takePalle { s with telegramIds := telegramIds, ircNames := ircNames } username errand.gift) username
    errand.giftEmoji, { score := if errand.gift = 0 then 0 else counter s.scores username - errand.gift }, ?_, ?_, ?_⟩
  · rw [takeAlong_ids, takePalle_ids]
  · rw [(takeAlong_aside _ username errand.giftEmoji).raids, (takePalle_aside _ username errand.gift).raids]
  · rw [if_neg Bool.false_ne_true]
    dsimp only
    rw [setOff, hfree]
    dsimp only
    rw [hblow, if_neg Bool.false_ne_true, if_neg hthawed, if_neg hplace, if_neg (not_lt.mpr hfit.gift), if_neg hrich, load]
    dsimp only
    rw [hcarries]

/-- Whoever starts is on the list, so something is to be saved. -/
theorem started_elsewhere {s t : ConquisterState} {userId : ℤ} {username : Str} {now : ℤ} {rules : RaidRules}
    {errand : Errand} {draws : StartDraws} {result : RaidResult}
    (h : raidStart s userId username now rules errand draws = .ok (result, t)) (hstarted : result.status = .started) :
    t ≠ s := by
  rintro rfl
  cases (raidStart_setsOff h).2 with
  | stays hnot => exact absurd hstarted hnot
  | turns hcomes =>
    rw [hcomes] at hstarted
    cases hstarted
  | off target _ _ _ _ _ hpushed =>
    have hlength := congrArg List.length hpushed
    simp at hlength

/-- Exactly those who set out start, and the ride is on the list then. -/
theorem started_iff {s : ConquisterState} {userId : ℤ} {username : Str} {now : ℤ} {rules : RaidRules} {errand : Errand}
    {draws : StartDraws} : (∃ result t, raidStart s userId username now rules errand draws = .ok (result, t) ∧
      result.status = .started) ↔ SetsOut s userId username now rules errand draws := by
  constructor
  · rintro ⟨result, t, h, hstarted⟩
    cases (raidStart_setsOff h).2 with
    | stays hnot => exact absurd hstarted hnot
    | turns hcomes =>
      rw [hcomes] at hstarted
      cases hstarted
    | off target _ haway hknown hfair hfit hpushed =>
      rw [Bool.not_eq_true] at haway
      obtain ⟨known, outcome, hids, -, hdepart⟩ := @raidStart_depart _ s userId username target now rules errand draws
        haway hknown hfair hfit
      refine ⟨haway, target, hknown, hfair, hfit, ?_⟩
      rw [← hids, ← depart_isOk known outcome username target now rules errand draws, ← hdepart]
      exact ⟨result, t, h⟩
  · rintro ⟨haway, target, hknown, hfair, hfit, hfound⟩
    obtain ⟨known, outcome, hids, -, hdepart⟩ := @raidStart_depart _ s userId username target now rules errand draws
      haway hknown hfair hfit
    rw [← hids] at hfound
    obtain ⟨result, t, hok⟩ := (depart_isOk known outcome username target now rules errand draws).mpr hfound
    exact ⟨result, t, hdepart.trans hok, (depart_eq_ok hok).1⟩

/-- Nothing the keeper does before he walks the list is a homecoming. -/
theorem beforeRides_returned (s : ConquisterState) (now : ℤ) (rules : RaidRules) (draws : DueDraws) :
    (beforeRides s now rules draws).1.filter Returned = [] := by
  have hgrown (children : List Child) (s : ConquisterState) :
      (growAll now rules children s).2.1.filter Returned = [] := by
    induction children generalizing s with
    | nil => rfl
    | cons child children ih =>
      rw [growAll, List.filter_append, ih, List.append_nil, growOne]
      dsimp only
      split_ifs <;> rfl
  have hborn (pregnancies : List Pregnancy) (index : ℕ) (s : ConquisterState) :
      (birthsFrom now rules draws.birth pregnancies index s).1.filter Returned = [] := by
    induction pregnancies generalizing index s with
    | nil => rfl
    | cons pregnancy pregnancies ih =>
      rw [birthsFrom]
      by_cases hlater : pregnancy.due > now
      · rw [if_pos hlater, ih]
      · rw [if_neg hlater, List.filter_append, ih, List.append_nil, birth]
        cases cradle s pregnancy.mother rules.furnitureLimit (draws.birth index).place with
        | none => rfl
        | some place => rfl
  simp only [beforeRides, List.filter_append, grow, births, hgrown, hborn, List.append_nil]

variable [Clock]

theorem homecomings_ne_nil {copies : ℕ → Bool} {s : ConquisterState} {now : ℤ} {rules : RaidRules} {draws : DueDraws} :
    homecomings copies s now rules draws ≠ [] ↔
      bringsHome copies now rules draws.ride (beforeRides s now rules draws).2.raids.length 0
        (beforeRides s now rules draws).2 = true := comesHome_ne_nil

/-- A round in which anybody comes home leaves fewer rides on the list. -/
theorem raidDue_shorter {copies : ℕ → Bool} {s t : ConquisterState} {now : ℤ} {rules : RaidRules} {draws : DueDraws}
    {events : List RaidEvent} (h : raidDue s now rules draws = .ok (events, t))
    (hhome : bringsHome copies now rules draws.ride (beforeRides s now rules draws).2.raids.length 0
      (beforeRides s now rules draws).2 = true) : t.raids.length < s.raids.length := by
  simp only [raidDue] at h
  cases hwalk : settleRides now rules draws.ride (beforeRides s now rules draws).2.raids.length 0
      (beforeRides s now rules draws).2 with
  | error failure =>
    rw [hwalk] at h
    cases h
  | ok outcome =>
    rw [hwalk] at h
    cases h
    obtain ⟨hlength, hover⟩ := @settleRides_over _ _ copies _ _ _ _ _ _ _ _ hwalk
    obtain ⟨raid, hraid, hthere⟩ := hover (.inr hhome)
    have hshorter : (outcome.2.raids.filter fun raid => ¬ raid.over now).length < outcome.2.raids.length := by
      rw [List.length_filter_lt_length_iff_exists]
      exact ⟨raid, hraid, by simp [hthere]⟩
    have hsame := (beforeRides_aside s now rules draws).raids
    rw [hlength, hsame] at hshorter
    exact hshorter

theorem returned_said {s t : ConquisterState} {now : ℤ} {rules : RaidRules} {draws : DueDraws} {events : List RaidEvent}
    (h : raidDue s now rules draws = .ok (events, t)) :
    events.filter Returned = ((roundEvents now rules draws.ride (beforeRides s now rules draws).2.raids.length 0
      (beforeRides s now rules draws).2).filter fun said => Returned said.2).map Prod.snd := by
  rw [raidDue_events h, List.filter_append, beforeRides_returned, List.nil_append, List.filter_map]
  rfl

/-- As many rides as are said to be home are found at their places, and the events name them. -/
theorem homeOf_named {s t : ConquisterState} {now : ℤ} {rules : RaidRules} {draws : DueDraws} {events : List RaidEvent}
    (h : raidDue s now rules draws = .ok (events, t)) :
    List.Forall₂ (fun event ride => ride ∈ pairs s ∧ event.raider = displayName s ride.1 ∧
      event.target = displayName s ride.2) (events.filter Returned) (homeOf s now rules draws) := by
  have haside := beforeRides_aside s now rules draws
  have hnames : (beforeRides s now rules draws).2.displayNames = s.displayNames :=
    congrArg Register.displayNames haside.register
  have hpairs : pairs (beforeRides s now rules draws).2 = pairs s := by rw [pairs, haside.raids, ← pairs]
  rw [returned_said h, homeOf, List.forall₂_map_left_iff, List.forall₂_map_right_iff, List.forall₂_same]
  intro said hsaid
  obtain ⟨hin, hhome⟩ := List.mem_filter.mp hsaid
  obtain ⟨raider, target, hplace, hraider, htarget⟩ := roundEvents_named hin hhome
  rw [hpairs] at hplace
  rw [displayName, hnames] at hraider htarget
  rw [List.getD_eq_getElem?_getD, hplace]
  exact ⟨List.mem_of_getElem? hplace, hraider, htarget⟩

/-- What the sentinel is told in a round that is over is what the round owes it. -/
theorem homecomings_records {copies : ℕ → Bool} {s t : ConquisterState} {now : ℤ} {rules : RaidRules} {draws : DueDraws}
    {events : List RaidEvent} (h : raidDue s now rules draws = .ok (events, t))
    (hwalks : walksOn copies now rules draws.ride (beforeRides s now rules draws).2.raids.length 0
      (beforeRides s now rules draws).2 = true) :
    ((homecomings copies s now rules draws).flatMap (homecomingTold now)).flatMap Told.records =
      (List.zipWith (homeRecords now) (events.filter Returned) (homeOf s now rules draws)).flatten := by
  have hpairs : pairs (beforeRides s now rules draws).2 = pairs s := by
    rw [pairs, (beforeRides_aside s now rules draws).raids, ← pairs]
  have hsaid := comesHome_said hwalks
  have hrecords (raid : Raid) : (homecomingTold now raid).flatMap Told.records =
      Record.back raid.raider now :: if raid.loot > 0 then [.robbed raid.target (now, raid.raider)] else [] := by
    rw [homecomingTold]
    by_cases hloot : raid.loot > 0
    · rw [if_pos hloot, if_pos hloot]
      rfl
    · rw [if_neg hloot, if_neg hloot]
      rfl
  rw [hpairs] at hsaid
  rw [returned_said h, homeOf, List.zipWith_map, List.zipWith_self, List.flatMap_assoc, List.flatMap_congr fun raid _ => hrecords raid]
  have hboth := congrArg (List.flatMap fun home : (Str × Str) × ℤ =>
    Record.back home.1.1 now :: if home.2 > 0 then [.robbed home.1.2 (now, home.1.1)] else []) hsaid
  rw [List.flatMap_map, List.flatMap_map] at hboth
  exact hboth.symm

theorem outcome_step {files files' : Files} {attempt : Attempt} {reply : Reply}
    (h : attempt.outcome files = some (reply, files')) :
    step files attempt.call.op = .ok (reply, files') ∧ attempt.copied files = true ∧
      (attempt.saves = true ∨ files' = files) := by
  rw [Attempt.outcome] at h
  cases hstep : step files attempt.call.op with
  | error failure =>
    rw [hstep] at h
    cases h
  | ok outcome =>
    rw [hstep] at h
    dsimp only at h
    by_cases hsaved : attempt.copied files = true ∧ (attempt.saves = true ∨ outcome.2 = files)
    · rw [if_pos hsaved] at h
      cases h
      exact ⟨rfl, hsaved⟩
    · rw [if_neg hsaved] at h
      cases h

/-- What a call that returns has told is what it owes. -/
theorem told_owed {files files' : Files} {attempt : Attempt} {reply : Reply}
    (h : attempt.outcome files = some (reply, files')) :
    (attempt.toldBefore files ++ attempt.call.toldAfter).flatMap Told.records = attempt.call.owed files reply := by
  obtain ⟨hstep, hcopied, -⟩ := outcome_step h
  obtain ⟨call, copies, saves⟩ := attempt
  cases call with
  | raidStart userId username now rules errand draws =>
    obtain ⟨result, hstart, rfl, -⟩ := Files.only_eq_ok hstep
    simp only [Attempt.toldBefore, Call.toldAfter, Call.owed, List.append_nil]
    by_cases hstarted : result.status = .started
    · obtain ⟨known, hknown⟩ := target_known hstart hstarted
      rw [if_pos hstarted, hknown]
      simp only [raidStartTold, hstart, hstarted, hknown]
      rfl
    · rw [if_neg hstarted, raidStartTold_other hstart hstarted]
      rfl
  | raidDue now rules draws =>
    obtain ⟨events, hdue, rfl, -⟩ := Files.only_eq_ok hstep
    simp only [Attempt.toldBefore, Call.toldAfter, Call.owed, List.append_nil]
    exact homecomings_records hdue hcopied
  | claim userId username now rules draws =>
    obtain ⟨result, -, rfl, -⟩ := Files.only_eq_ok hstep
    rfl

/-- What has to be saved is just what would be told for nothing. -/
theorem meets_iff {files : Files} {attempt : Attempt} :
    attempt.Meets files ↔ (attempt.outcome files = none → (attempt.toldBefore files).flatMap Told.records = []) := by
  obtain ⟨call, copies, saves⟩ := attempt
  cases call with
  | raidStart userId username now rules errand draws =>
    simp only [Attempt.Meets, Attempt.toldBefore]
    rw [← started_iff]
    constructor
    · intro hmeets hnone
      cases hstart : raidStart files.state userId username now rules errand draws with
      | error failure => simp [raidStartTold, hstart]
      | ok outcome =>
        obtain ⟨result, t⟩ := outcome
        by_cases hstarted : result.status = .started
        · have hsaves := hmeets ⟨result, t, hstart, hstarted⟩
          simp [Attempt.outcome, Attempt.copied, Call.op, step, hstart, hsaves, Files.only] at hnone
        · rw [raidStartTold_other hstart hstarted]
          rfl
    · rintro htold ⟨result, t, hstart, hstarted⟩
      obtain ⟨known, hknown⟩ := raidStartTold_started hstart hstarted
      cases houtcome : Attempt.outcome files ⟨.raidStart userId username now rules errand draws, copies, saves⟩ with
      | none =>
        rw [hknown] at htold
        cases htold houtcome
      | some outcome =>
        obtain ⟨hstep, -, hsaved⟩ := outcome_step houtcome
        refine hsaved.resolve_right fun hsame => ?_
        obtain ⟨result', hstart', -, -⟩ := Files.only_eq_ok hstep
        rw [hsame, hstart] at hstart'
        cases hstart'
        exact started_elsewhere hstart hstarted rfl
  | raidDue now rules draws =>
    simp only [Attempt.Meets, Attempt.toldBefore]
    constructor
    · intro hmeets hnone
      by_cases hhome : bringsHome copies now rules draws.ride (beforeRides files.state now rules draws).2.raids.length 0
          (beforeRides files.state now rules draws).2 = true
      · obtain ⟨hwalks, hsaves⟩ := hmeets hhome
        obtain ⟨events, t, hwalk⟩ := settleRides_of_walksOn hwalks
        simp [Attempt.outcome, Attempt.copied, Call.op, step, raidDue, hwalk, hwalks, hsaves, Files.only] at hnone
      · have hnobody : homecomings copies files.state now rules draws = [] :=
          not_not.mp (mt homecomings_ne_nil.mp hhome)
        rw [hnobody]
        rfl
    · intro htold hhome
      cases houtcome : Attempt.outcome files ⟨.raidDue now rules draws, copies, saves⟩ with
      | none =>
        have hnone := htold houtcome
        cases hrides : homecomings copies files.state now rules draws with
        | nil => exact absurd hrides (homecomings_ne_nil.mpr hhome)
        | cons raid rides =>
          rw [hrides] at hnone
          cases hnone
      | some outcome =>
        obtain ⟨hstep, hcopied, hsaved⟩ := outcome_step houtcome
        refine ⟨hcopied, hsaved.resolve_right fun hsame => ?_⟩
        obtain ⟨events, hdue, -, -⟩ := Files.only_eq_ok hstep
        have hshorter := raidDue_shorter hdue hhome
        rw [hsame] at hshorter
        exact lt_irrefl _ hshorter
  | claim userId username now rules draws => simp [Attempt.Meets, Attempt.toldBefore]

/-- A round before anybody's way back is over, in which no ☢️ lands, may fail as it likes. -/
theorem meets_quiet {files : Files} {now : ℤ} {rules : RaidRules} {draws : DueDraws} {copies : ℕ → Bool} {saves : Bool}
    (h : ∀ raid ∈ files.state.raids, now < raid.back ∧
      (raid.due now = true → ¬ (raid.throws = true ∧ isPower raid.giftEmoji .nuke = true))) :
    Attempt.Meets files ⟨.raidDue now rules draws, copies, saves⟩ := by
  intro hhome
  rw [bringsHome_quiet] at hhome
  · cases hhome
  · rw [(beforeRides_aside files.state now rules draws).raids]
    exact h

/-- All that the calls of a run leave with the sentinel. -/
def Watched.left : Watched → List Attempt → List Record
  | _, [] => []
  | world, attempt :: attempts =>
    (attempt.toldBefore world.files ++
      if (attempt.outcome world.files).isSome then attempt.call.toldAfter else []).flatMap Told.records ++
      (world.after attempt).left attempts

theorem records_run (world : Watched) (attempts : List Attempt) :
    (world.run attempts).memory.records.Perm (world.memory.records ++ world.left attempts) := by
  induction attempts generalizing world with
  | nil =>
    rw [Watched.left, List.append_nil]
    exact List.Perm.refl _
  | cons attempt attempts ih =>
    have hrest := ih (world.after attempt)
    have hone : (world.after attempt).memory.records.Perm (world.memory.records ++
        (attempt.toldBefore world.files ++
          if (attempt.outcome world.files).isSome then attempt.call.toldAfter else []).flatMap Told.records) := by
      rw [Watched.after]
      cases attempt.outcome world.files with
      | none =>
        rw [Option.isSome_none, if_neg Bool.false_ne_true, List.append_nil]
        exact records_tellAll _ _
      | some outcome =>
        rw [Option.isSome_some, if_pos rfl]
        exact records_tellAll _ _
    rw [Watched.left, ← List.append_assoc]
    exact hrest.trans (hone.append_right _)

/-- A run leaves all it owes, and no more just when all that had to be saved was. -/
theorem owed_left (world : Watched) (attempts : List Attempt) :
    (world.owed attempts).length ≤ (world.left attempts).length ∧
      ((world.left attempts).length = (world.owed attempts).length → world.AllMeet attempts) ∧
      (world.AllMeet attempts → world.left attempts = world.owed attempts) := by
  induction attempts generalizing world with
  | nil => exact ⟨le_rfl, fun _ => trivial, fun _ => rfl⟩
  | cons attempt attempts ih =>
    obtain ⟨hle, hequal, hsame⟩ := ih (world.after attempt)
    rw [Watched.left, Watched.owed, Watched.AllMeet, List.length_append, List.length_append, meets_iff]
    cases houtcome : attempt.outcome world.files with
    | none =>
      rw [Option.isSome_none, if_neg Bool.false_ne_true, List.append_nil, Option.elim_none, List.length_nil]
      refine ⟨by omega, fun hlength => ⟨fun _ => ?_, hequal (by omega)⟩, fun hmeets => ?_⟩
      · apply List.length_eq_zero_iff.mp
        omega
      · rw [hmeets.1 rfl, hsame hmeets.2]
    | some outcome =>
      rw [Option.isSome_some, if_pos rfl, told_owed houtcome, Option.elim_some]
      refine ⟨by omega, fun hlength => ⟨fun hnone => ?_, hequal (by omega)⟩, fun hmeets => ?_⟩
      · cases hnone
      · rw [hsame hmeets.2]

/-- The sentinel holds what it ought to after a run just when everybody who set off was saved, and every round that
brought anybody home was walked to its end and saved. -/
theorem evidence_iff (world : Watched) (attempts : List Attempt) :
    (world.run attempts).memory.records.Perm (world.memory.records ++ world.owed attempts) ↔ world.AllMeet attempts := by
  have hrun := records_run world attempts
  obtain ⟨-, hmeet, hsame⟩ := owed_left world attempts
  constructor
  · intro hholds
    have hlength := (hholds.symm.trans hrun).length_eq
    rw [List.length_append, List.length_append] at hlength
    exact hmeet (by omega)
  · intro hmeets
    rw [← hsame hmeets]
    exact hrun

end

/-- Anna is on her way back from Bruno's with five palle. -/
def comingBack : Watched where
  files := { state := { raids := [{ raider := utf8 "anna", target := utf8 "bruno", arrive := 100, back := 200
                                    arrived := true, loot := 5 }] } }
  memory := {}

def round (saves : Bool) : Attempt where
  call := .raidDue 200 {} ⟨fun _ => 0, fun _ => ⟨0, 0⟩, fun _ => ⟨0, 0, 0, ⟨0, 0⟩, 0, 0, 0, [], [], 0, 0⟩⟩
  copies := fun _ => true
  saves := saves

/-- A round that cannot be saved, and the same round again: one homecoming, told twice. -/
theorem evidence_doubled :
    @Watched.owed _ utc comingBack [round false, round true] =
        [.back (utf8 "anna") 200, .robbed (utf8 "bruno") (200, utf8 "anna")] ∧
      (@Watched.run _ utc comingBack [round false, round true]).memory.records =
        [.back (utf8 "anna") 200, .back (utf8 "anna") 200, .robbed (utf8 "bruno") (200, utf8 "anna"),
          .robbed (utf8 "bruno") (200, utf8 "anna")] ∧
      ¬ (@Watched.run _ utc comingBack [round false, round true]).memory.records.Perm
        (comingBack.memory.records ++ @Watched.owed _ utc comingBack [round false, round true]) := by
  decide +kernel

end NorelecBot.Watch
