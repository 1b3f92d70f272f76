import NorelecBot.Onward
import NorelecBot.Routines

/-! # Naming yourself is the way home

A name is looked for among those of the platform it is written for, and compared
with the one name a player shows. Whoever goes by another there is found under it,
and sets off for himself.
-/

namespace NorelecBot
open Lib

/-- What somebody who names himself is answered. -/
def RaidStatus.home : RaidStatus → Bool
  | .leftPlace | .comingHome | .homeAlready => true
  | _ => false

def findsSender (state : ConquisterState) (userId : ℤ) (username : Str) (errand : Errand) : Bool :=
  playerByName (rememberPlatform state username userId) errand.target errand.kind = some username

def takenForSender (state : ConquisterState) (userId : ℤ) (username : Str) (errand : Errand) : Bool :=
  homewards (rememberPlatform state username userId) userId username errand

section
variable [SlotCodec]

theorem load_not_home {s t : ConquisterState} {username known : Str} {now : ℤ} {rules : RaidRules} {errand : Errand}
    {draws : StartDraws} {result : RaidResult} (h : load s username known now rules errand draws = .ok (result, t)) :
    result.status.home = false := by
  rw [load] at h
  split at h
  · rename_i status hcannot
    cases h
    rcases cannotCarry_eq_some hcannot with rfl | rfl | rfl <;> rfl
  · rw [depart] at h
    split at h
    · cases h
    split at h
    · cases h
    · cases h
      rfl

theorem setOff_not_home {s t : ConquisterState} {username known : Str} {now : ℤ} {rules : RaidRules} {errand : Errand}
    {draws : StartDraws} {result : RaidResult} (h : setOff s username known now rules errand draws = .ok (result, t)) :
    result.status.home = false := by
  rw [setOff] at h
  split at h
  · cases h
    rfl
  · split_ifs at h
    · cases h
      rfl
    · cases h
      rfl
    · cases h
      rfl
    · cases h
      rfl
    · cases h
      rfl
    · exact load_not_home h

/-- Who is answered that he comes home was taken for the one he named, and nobody else is. -/
theorem raidStart_home_iff {s t : ConquisterState} {userId : ℤ} {username : Str} {now : ℤ} {rules : RaidRules}
    {errand : Errand} {draws : StartDraws} {result : RaidResult}
    (h : raidStart s userId username now rules errand draws = .ok (result, t)) :
    result.status.home = true ↔ takenForSender s userId username errand = true := by
  rw [raidStart] at h
  by_cases htaken : homewards (rememberPlatform s username userId) userId username errand = true
  · rw [if_pos htaken] at h
    refine iff_of_true ?_ htaken
    rcases rideHome_status h with hstatus | hstatus | hstatus <;> rw [hstatus] <;> rfl
  · rw [if_neg htaken] at h
    refine iff_of_false ?_ htaken
    cases hfound : playerByName (rememberPlatform s username userId) errand.target errand.kind with
    | none =>
      rw [hfound] at h
      cases h
      exact Bool.false_ne_true
    | some target =>
      rw [hfound] at h
      rw [setOff_not_home h]
      exact Bool.false_ne_true

variable [Clock]

/-- Nobody on the road is on his way to himself. -/
def NoSelfRides (state : ConquisterState) : Prop := ∀ raid ∈ state.raids, raid.raider ≠ raid.target

instance (state : ConquisterState) : Decidable (NoSelfRides state) := inferInstanceAs (Decidable (∀ _ ∈ _, _))

/-- Whether somebody names himself and is not taken for the one he named. -/
def Op.strays (state : ConquisterState) : Op → Bool
  | .raidStart userId username _ _ errand _ =>
    findsSender state userId username errand && !takenForSender state userId username errand
  | _ => false

omit [SlotCodec] [Clock] in
theorem NoSelfRides.onward {before after : ConquisterState} (h : NoSelfRides before)
    (honward : Onward before.raids after.raids) : NoSelfRides after := by
  intro raid hraid
  obtain ⟨old, hold, hraider, htarget, -⟩ := honward raid hraid
  rw [hraider, htarget]
  exact h old hold

/-- Whoever does not stray sets off for somebody else. -/
theorem step_noSelfRides {files files' : Files} {op : Op} {reply : Reply} (hs : NoSelfRides files.state)
    (hkept : op.strays files.state = false) (h : step files op = .ok (reply, files')) : NoSelfRides files'.state := by
  rcases (step_goes h).rides.onward with honward |
    ⟨userId, username, now, rules, errand, draws, result, target, rfl, rfl, haway, hknown, -, -, hpushed⟩
  · exact hs.onward honward
  · intro raid hraid
    rw [hpushed, List.mem_append, List.mem_singleton] at hraid
    rcases hraid with hthere | rfl
    · exact hs raid hthere
    · intro hself
      have hfinds : findsSender files.state userId username errand = true := by
        rw [findsSender, hknown]
        exact decide_eq_true (congrArg some hself.symm)
      have htaken : takenForSender files.state userId username errand = false := by
        simpa [takenForSender] using haway
      rw [Op.strays, hfinds, htaken] at hkept
      cases hkept

/-- Whether it was answered, and somebody who named himself was not taken for the one he named. -/
def Call.strays (call : Call) : Bool := call.reply.isSome && call.op.strays call.before.state

/-- Whoever named himself was answered that he comes home. -/
def Call.sendsHome (call : Call) : Bool :=
  match call.op, call.reply with
  | .raidStart userId username _ _ errand _, some (.raidStart result) =>
    !findsSender call.before.state userId username errand || result.status.home
  | _, _ => true

/-- What the game answers sends home whoever did not stray. -/
theorem sendsHome_of_step {files files' : Files} {op : Op} {reply : Reply} (h : step files op = .ok (reply, files')) :
    (Call.mk files op (some reply)).sendsHome = !(Call.mk files op (some reply)).strays := by
  cases op with
  | raidStart userId username now rules errand draws =>
    obtain ⟨result, hstart, rfl, -⟩ := Files.only_eq_ok h
    have hhome := Bool.eq_iff_iff.mpr (raidStart_home_iff hstart)
    simp [Call.sendsHome, Call.strays, Op.strays, hhome]
  | _ => rfl

/-- What was asked of the game since then sends home whoever did not stray, and if nobody did leaves everybody a ride
to somebody else. -/
def Straight (before after : Desk) : Prop :=
  ∃ since, after.calls = before.calls ++ since ∧ (∀ call ∈ since, call.sendsHome = !call.strays) ∧
    ((∀ call ∈ since, call.strays = false) → NoSelfRides before.files.state → NoSelfRides after.files.state)

omit [SlotCodec] [Clock] in
theorem Straight.of_same {before after : Desk} (hcalls : after.calls = before.calls) (hfiles : after.files = before.files) :
    Straight before after :=
  ⟨[], by rw [hcalls, List.append_nil], fun _ h => absurd h List.not_mem_nil, fun _ hs => hfiles ▸ hs⟩

omit [SlotCodec] [Clock] in
theorem straight_preorder : IsPreorder Desk Straight where
  refl := fun _ => .of_same rfl rfl
  trans := by
    rintro first second third ⟨since, hcalls, hhome, hkeeps⟩ ⟨later, hcalls', hhome', hkeeps'⟩
    refine ⟨since ++ later, by rw [hcalls', hcalls, List.append_assoc],
      List.forall_mem_append.mpr ⟨hhome, hhome'⟩, fun hkept hs => ?_⟩
    rw [List.forall_mem_append] at hkept
    exact hkeeps' hkept.2 (hkeeps hkept.1 hs)

theorem ask_straight (moment : Moment) (op : Op) : (ask moment op).Within Straight := by
  intro desk
  rcases ask_cases moment op desk with hask | ⟨reply, files, hstep, hask⟩
  · rw [hask]
    refine ⟨_, rfl, ?_, fun _ hs => hs⟩
    rw [List.forall_mem_singleton]
    cases op <;> rfl
  · rw [hask]
    refine ⟨_, rfl, ?_, fun hkept hs => ?_⟩
    · rw [List.forall_mem_singleton]
      exact sendsHome_of_step hstep
    · have hstraight := hkept ⟨desk.files, op, some reply⟩ List.mem_cons_self
      exact step_noSelfRides hs hstraight hstep

theorem straight_routine (context : CommandContext) (moment : Moment) : Routine context moment Straight where
  preorder := straight_preorder
  ask op _ := ask_straight moment op
  consult _ _ := .of_same rfl rfl
  remember :=
    have := straight_preorder
    remember_of_ask (ask_straight moment _) fun _ _ => .of_same rfl rfl
  unblock _ _ := .of_same rfl rfl
  tellBlocked _ _ _ := .of_same rfl rfl

/-- What the game is asked for by something that happens to the bot. -/
def Bot.callsOn (bot : Bot) : Event → List Call
  | .message message => (bot.hear message).2.calls
  | _ => []

/-- What it is asked for by one thing after the other. -/
def Bot.callsIn : Bot → List Event → List Call
  | _, [] => []
  | bot, event :: events => bot.callsOn event ++ (bot.after event).callsIn events

theorem hear_straight (bot : Bot) (message : Message) : Straight bot.desk (bot.hear message).2 :=
  (straight_routine message.context message.moment).message_of_ask (ask_straight message.moment) message.text bot.desk

theorem callsOn_sendsHome (bot : Bot) (event : Event) : ∀ call ∈ bot.callsOn event, call.sendsHome = !call.strays := by
  cases event with
  | message message =>
    obtain ⟨since, hcalls, hhome, -⟩ := hear_straight bot message
    change ∀ call ∈ (bot.hear message).2.calls, _
    rw [hcalls]
    exact hhome
  | _ => exact fun _ h => absurd h List.not_mem_nil

theorem callsIn_sendsHome (bot : Bot) (events : List Event) :
    ∀ call ∈ bot.callsIn events, call.sendsHome = !call.strays := by
  induction events generalizing bot with
  | nil => exact fun _ h => absurd h List.not_mem_nil
  | cons event events ih => exact List.forall_mem_append.mpr ⟨callsOn_sendsHome bot event, ih _⟩

theorem after_noSelfRides {bot : Bot} {event : Event} (hs : NoSelfRides bot.files.state)
    (hkept : ∀ call ∈ bot.callsOn event, call.strays = false) : NoSelfRides (bot.after event).files.state := by
  have hop {op : Op} (hstraight : op.strays bot.files.state = false) : NoSelfRides (bot.files.after op).state := by
    cases hstep : step bot.files op with
    | error failure =>
      rw [Files.after, hstep]
      exact hs
    | ok result =>
      rw [Files.after_eq hstep]
      exact step_noSelfRides hs hstraight hstep
  cases event with
  | message message =>
    obtain ⟨since, hcalls, -, hkeeps⟩ := hear_straight bot message
    apply hkeeps _ hs
    intro call hcall
    have hmem : call ∈ (bot.hear message).2.calls := by
      rw [hcalls]
      exact List.mem_append_right _ hcall
    exact hkept call hmem
  | raidDue now rules draws => exact hop rfl
  | handOut furnitureLimit => exact hop rfl
  | sortOut => exact hop rfl
  | block player until' => exact hs

theorem run_noSelfRides {bot : Bot} {events : List Event} (hs : NoSelfRides bot.files.state)
    (hkept : ∀ call ∈ bot.callsIn events, call.strays = false) : NoSelfRides (bot.run events).files.state := by
  induction events generalizing bot with
  | nil => exact hs
  | cons event events ih =>
    rw [Bot.callsIn, List.forall_mem_append] at hkept
    exact ih (after_noSelfRides hs hkept.1) hkept.2

theorem callsIn_append (bot : Bot) (events later : List Event) :
    bot.callsIn (events ++ later) = bot.callsIn events ++ (bot.run events).callsIn later := by
  induction events generalizing bot with
  | nil => rfl
  | cons event events ih =>
    rw [List.cons_append, Bot.callsIn, ih, Bot.callsIn, List.append_assoc]
    rfl

/-- Nobody ever rides against himself, and whoever names himself is sent home, exactly if nobody is found by his name
without being taken for the one who shows it. -/
theorem nobody_rides_against_himself_iff {bot : Bot} (hnobody : NoSelfRides bot.files.state) (events : List Event) :
    ((∀ before, before <+: events → NoSelfRides (bot.run before).files.state) ∧
      ∀ call ∈ bot.callsIn events, call.sendsHome = true) ↔
    ∀ call ∈ bot.callsIn events, call.strays = false := by
  constructor
  · rintro ⟨-, hhome⟩ call hcall
    have hsame := callsIn_sendsHome bot events call hcall
    rw [hhome call hcall] at hsame
    simpa using hsame.symm
  · intro hkept
    constructor
    · rintro before ⟨later, rfl⟩
      rw [callsIn_append, List.forall_mem_append] at hkept
      exact run_noSelfRides hnobody hkept.1
    · intro call hcall
      rw [callsIn_sendsHome bot events call hcall, hkept call hcall]
      rfl

end

def annWrites (now : ℤ) (text : String) : Event := .message
  { context := { userId := 7, username := utf8 "ann" }, moment := { now := now }, text := utf8 text }

def annieWrites (now : ℤ) (text : String) : Event := .message
  { context := { username := utf8 "annie", accountName := utf8 "annie" }
    moment := { now := now, start := ⟨[1], [2]⟩ }, text := utf8 text }

/-- The accounts are linked on a day, and she is no newcomer on the next. -/
def isBoth : List Event :=
  [annWrites 1 "/help", annieWrites 1 "/help", annWrites 1 "/link annie", annieWrites 1 "/link @ann"]

/-- On Telegram she goes by the name she shows. -/
theorem nobody_rides_against_himself_iff_ann :
    NoSelfRides (@Bot.run _ utc {} (isBoth ++ [annWrites 90000 "/back"])).files.state ∧
    ∀ call ∈ @Bot.callsIn _ utc {} (isBoth ++ [annWrites 90000 "/back"]), call.sendsHome = true :=
  have hhome := (@nobody_rides_against_himself_iff _ utc {} (fun _ h => absurd h List.not_mem_nil)
    (isBoth ++ [annWrites 90000 "/back"])).mpr (by decide +kernel)
  ⟨hhome.1 _ List.prefix_rfl, hhome.2⟩

/-- On IRC she does not: asking for the way home, she sets off for her own house. -/
theorem annie_rides_against_herself :
    (∃ raid ∈ (@Bot.run _ utc {} (isBoth ++ [annieWrites 90000 "/back"])).files.state.raids, raid.raider = raid.target) ∧
    ∃ call ∈ @Bot.callsIn _ utc {} (isBoth ++ [annieWrites 90000 "/back"]), call.sendsHome = false := by
  decide +kernel

end NorelecBot
