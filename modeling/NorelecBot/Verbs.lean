import NorelecBot.Blocked
import NorelecBot.Named
import NorelecBot.FirstDay
import NorelecBot.Homeward

/-! # Each verb holds to its own meaning

All of them become a "We name ..." line and are told apart again by the same
grammars. Whatever somebody writes after a verb, the game is asked for nothing
but what the verb stands for, besides what being seen and being answered bring.
-/

namespace NorelecBot
open Lib

/-- Asked as the sender is seen, or after the reply. -/
def Op.courtesy : Op → Bool
  | .seen .. | .reward .. | .guide .. => true
  | _ => false

/-- A text that is this command, however it is spelled, with whatever is written after it. -/
def asksFor (text : Str) (command : Command) : Bool := (parseCommand (Text.trim text)).name = command.name

/-- A text that begins with "We ", but for the one that enters the place. -/
def isWeLine (text : Str) : Bool := raidTrigger.isPrefixOf (Text.trim text) && Text.trim text ≠ conquisterTrigger

/-- A public name as the chats have them: one word, and on IRC no @ before it. -/
def plainName (context : CommandContext) : Bool :=
  !context.username.any isBlank && (context.userId ≠ 0 || context.username.head? ≠ some mention)

/-- Neither palle nor an emoji goes along. -/
def Raid.robs (ride : Raid) : Bool := ride.gift = 0 && ride.giftEmoji = []

def Raid.presents (ride : Raid) : Bool :=
  (0 < ride.gift && ride.giftEmoji = []) ||
    (ride.gift = 0 && Text.emojiCount ride.giftEmoji = some 1 && ride.intact)

def Raid.hurls (ride : Raid) : Bool :=
  ride.gift = 0 && Text.emojiCount ride.giftEmoji = some 1 && isThrown ride.giftEmoji && !ride.intact

/-- What is asked for by a line on that name. -/
def errandTo (target : Str) (gift : ℤ) (giftEmoji : Str) (intact : Bool) : Errand where
  target := withoutMention target
  kind := platformOf target
  gift := gift
  giftEmoji := giftEmoji
  intact := intact

section
variable [SlotCodec] [Clock]

def Call.Starts (call : Call) (ride : Raid) : Prop :=
  ∃ reply files, step call.before call.op = .ok (reply, files) ∧
    files.state.raids = call.before.state.raids ++ [ride]

def Call.setsOffWith (call : Call) (key : Str) (fits : Raid → Prop) : Prop :=
  (∃ userId now rules errand draws, call.op = .raidStart userId key now rules errand draws) ∧
    ∀ ride, call.Starts ride → ride.raider = key ∧ fits ride

/-- Nobody sets off or turns back by it. -/
def Call.staysPut (call : Call) : Prop :=
  ∀ reply files, step call.before call.op = .ok (reply, files) → files.state.raids = call.before.state.raids

/-- Nothing of anybody else's is touched by it. -/
def Call.sparesOthers (call : Call) (key : Str) : Prop :=
  ∀ reply files, step call.before call.op = .ok (reply, files) →
    ∀ other, other ≠ key → Spares other call.before.state files.state

/-- What a verb asks for, under the sender's key; without one, what is asked for on his own name. -/
def Verb.standsFor (key : Str) : Verb → Call → Prop
  | .raid, call => call.setsOffWith key fun ride => ride.robs = true
  | .give, call => call.setsOffWith key fun ride => ride.presents = true ∧ ride.target ≠ key
  | .throw, call => (call.setsOffWith key fun ride => ride.hurls = true) ∨
      ∃ emoji now rules draws, call.op = .burn key emoji now rules false draws ∧
        Text.emojiCount emoji = some 1 ∧ isThrown emoji = true
  | .burn, call => ((∃ amount, call.op = .palleBurn key amount) ∨
      ∃ emoji now rules draws, call.op = .burn key emoji now rules true draws ∧ Text.emojiCount emoji = some 1) ∧
        call.staysPut ∧ call.sparesOthers key
  | .none, call => ((∃ emoji position cost limit now inflation, call.op = .buy key emoji position cost limit now inflation) ∨
      ∃ source target limit now, call.op = .move key source target limit now) ∧ call.staysPut

end

section
variable [SlotCodec] [Clock]

/-- What a message asks of the game for its own sake. -/
def errands (bot : Bot) (message : Message) : List Call :=
  (bot.hear message).2.calls.filter fun call => !call.op.courtesy

def Asked (means : Call → Prop) (before after : Desk) : Prop :=
  ∃ since, after.calls = before.calls ++ since ∧ ∀ call ∈ since, call.op.courtesy = true ∨ means call

def Meant (context : CommandContext) (key : Str) (means : Call → Prop) (before after : Desk) : Prop :=
  senderKey context before.files.state = key → senderKey context after.files.state = key ∧ Asked means before after

/-- What is known once the sender was seen: his key, that it is known where he plays, and that his public name
leads to it. -/
structure Met (context : CommandContext) (key : Str) (files : Files) (bound : Str) : Prop where
  bound : bound = key
  remembered : rememberPlatform files.state key context.userId = files.state
  filed : files.state.accounts.find (platformKey context.userId context.username context.accountName) = some key
  named : namesPlayer files.state key context.username (if context.userId ≠ 0 then .telegram else .irc) = true

variable {context : CommandContext} {moment : Moment} {key : Str} {means : Call → Prop}

omit [SlotCodec] [Clock] in
theorem Met.senderKey {files : Files} {bound : Str} (h : Met context key files bound) :
    senderKey context files.state = key := by
  rw [NorelecBot.senderKey, keyFor, h.filed]

omit [SlotCodec] [Clock] in
theorem Asked.of_same {before after : Desk} (h : after.calls = before.calls) : Asked means before after :=
  ⟨[], by rw [h, List.append_nil], fun _ hcall => absurd hcall List.not_mem_nil⟩

omit [SlotCodec] [Clock] in
theorem asked_preorder (means : Call → Prop) : IsPreorder Desk (Asked means) where
  refl := fun _ => .of_same rfl
  trans := by
    rintro first second third ⟨since, hcalls, hmeant⟩ ⟨later, hcalls', hmeant'⟩
    refine ⟨since ++ later, by rw [hcalls', hcalls, List.append_assoc], ?_⟩
    rw [List.forall_mem_append]
    exact ⟨hmeant, hmeant'⟩

omit [SlotCodec] [Clock] in
theorem Meant.of_same {before after : Desk} (hcalls : after.calls = before.calls) (hfiles : after.files = before.files) :
    Meant context key means before after := by
  intro hkey
  rw [hfiles]
  exact ⟨hkey, .of_same hcalls⟩

omit [SlotCodec] [Clock] in
theorem meant_preorder (context : CommandContext) (key : Str) (means : Call → Prop) : IsPreorder Desk (Meant context key means) where
  refl := fun _ => .of_same rfl rfl
  trans := by
    intro first second third h hnext hkey
    obtain ⟨hsecond, hasked⟩ := h hkey
    obtain ⟨hthird, hlater⟩ := hnext hsecond
    have := asked_preorder means
    exact ⟨hthird, Trans.trans hasked hlater⟩

theorem namesPlayer_seenState (state : ConquisterState) :
    namesPlayer (seenState context moment state) (senderKey context state) context.username
      (if context.userId ≠ 0 then .telegram else .irc) = true := by
  have hregister := playerSeen_register state context.userId context.username context.accountName
    (if context.config.starterBalloon then context.config.furnitureLimit else 0)
    (if context.config.newcomers then moment.now else 0)
  obtain ⟨-, htelegram, hirc, -, -⟩ := introduce_fields state context.userId context.username context.accountName
    (if context.config.newcomers then moment.now else 0)
  rw [namesPlayer, decide_eq_true_eq]
  by_cases hid : context.userId ≠ 0
  · have hnames : (seenState context moment state).telegramNames = _ :=
      (congrArg Register.telegramNames hregister).trans htelegram
    rw [if_pos hid] at hnames ⊢
    rw [playerByName, hnames, rename, OrderedMap.find_set_self]
    rfl
  · have hnicks : (seenState context moment state).ircNicks = _ := (congrArg Register.ircNicks hregister).trans hirc
    rw [if_neg hid] at hnicks ⊢
    rw [playerByName, hnicks, rename, OrderedMap.find_set_self]
    rfl

omit [SlotCodec] [Clock] in
theorem rememberPlatform_of_same {s t : ConquisterState} {userId : ℤ}
    (htelegram : t.telegramIds = (rememberPlatform s key userId).telegramIds)
    (hirc : t.ircNames = (rememberPlatform s key userId).ircNames) : rememberPlatform t key userId = t := by
  rw [rememberPlatform] at htelegram hirc ⊢
  by_cases hid : userId = 0
  · rw [if_pos hid] at hirc ⊢
    have hknown : (findIgnoreCase t.ircNames key).isSome = true := by
      rw [hirc, rememberIrc]
      split
      · rw [findIgnoreCase, List.find?_isSome]
        have hmem : (key, (1 : ℤ)) ∈ (s.ircNames.set key 1).entries :=
          OrderedMap.find_eq_some.mp (OrderedMap.find_set_self _ _ _)
        exact ⟨(key, 1), hmem, Text.equalsIgnoreCase_refl key⟩
      · rename_i hsome
        simpa [Option.isSome_iff_ne_none] using hsome
    have hsame : ¬ (findIgnoreCase t.ircNames key).isNone = true := by simpa [Option.isSome_iff_ne_none] using hknown
    rw [rememberIrc, if_neg hsame]
  · rw [if_neg hid] at htelegram ⊢
    have hknown : counter t.telegramIds key = userId := by
      rw [htelegram, rememberTelegram]
      split
      · rw [counter_set, if_pos rfl]
      · rename_i hsame
        by_contra hother
        exact hsame ⟨hid, hother⟩
    rw [rememberTelegram, if_neg (by simp [hknown])]

omit [SlotCodec] [Clock] in
theorem introduce_platform (s : ConquisterState) (userId : ℤ) (username accountName : Str) (now : ℤ) :
    ∃ named, (introduce s userId username accountName now).telegramIds =
        (rememberPlatform named (keyFor s userId username accountName) userId).telegramIds ∧
      (introduce s userId username accountName now).ircNames =
        (rememberPlatform named (keyFor s userId username accountName) userId).ircNames := by
  have hjoin (t : ConquisterState) (key : Str) :
      (join t key now).telegramIds = t.telegramIds ∧ (join t key now).ircNames = t.ircNames := by
    rw [join]
    split <;> exact ⟨rfl, rfl⟩
  exact ⟨_, hjoin _ _⟩

theorem remembered_seenState (state : ConquisterState) :
    rememberPlatform (seenState context moment state) (senderKey context state) context.userId =
      seenState context moment state := by
  have hregister := playerSeen_register state context.userId context.username context.accountName
    (if context.config.starterBalloon then context.config.furnitureLimit else 0)
    (if context.config.newcomers then moment.now else 0)
  obtain ⟨named, htelegram, hirc⟩ := introduce_platform state context.userId context.username context.accountName
    (if context.config.newcomers then moment.now else 0)
  exact rememberPlatform_of_same ((congrArg Register.telegramIds hregister).trans htelegram)
    ((congrArg Register.ircNames hregister).trans hirc)

theorem met_seenDesk (desk : Desk) (hkey : senderKey context desk.files.state = key) :
    Met context key (seenDesk context moment desk).files (seenDesk context moment desk).bound := by
  subst hkey
  exact ⟨rfl, remembered_seenState desk.files.state, accounts_seenState context moment desk.files.state,
    namesPlayer_seenState desk.files.state⟩

theorem rememberSender_means : (rememberSender context moment).Within (Meant context key means) := by
  intro desk
  by_cases hname : context.username = []
  · rw [rememberSender, if_pos hname]
    exact .of_same rfl rfl
  · intro hkey
    cases hopen : moment.fails desk.opened with
    | true =>
      rw [rememberSender_failed hname hopen]
      exact ⟨hkey, _, rfl, by simp [seenOp, Op.courtesy]⟩
    | false =>
      rw [rememberSender_ok hname hopen]
      exact ⟨(met_seenDesk desk hkey).senderKey, _, rfl, by simp [seenOp, Op.courtesy]⟩

theorem meant_courteous (context : CommandContext) (moment : Moment) (key : Str) (means : Call → Prop) :
    Courteous context moment (Meant context key means) where
  preorder := meant_preorder context key means
  consult _ _ := .of_same rfl rfl
  remember := rememberSender_means
  tellBlocked _ _ _ := .of_same rfl rfl

/-- A line that goes on once its sender was seen. -/
theorem seenFirst_means {α : Type} {next : Unit → Act Desk α}
    (hnext : (next ()).WithinFrom (fun desk => context.username ≠ [] → Met context key desk.files desk.bound)
      (Meant context key means)) :
    (rememberSender context moment >>= next).Within (Meant context key means) := by
  have := meant_preorder context key means
  intro desk hkey
  have hfrom : (rememberSender context moment >>= next).WithinFrom
      (fun desk => senderKey context desk.files.state = key) (Meant context key means) := by
    apply Act.withinFrom_bind
      (K := fun _ desk => context.username ≠ [] → Met context key desk.files desk.bound)
      (Act.withinFrom_of_within rememberSender_means _)
    · intro desk _ desk' hkey hrun hname
      cases hopen : moment.fails desk.opened with
      | true =>
        rw [rememberSender_failed hname hopen] at hrun
        cases hrun
      | false =>
        rw [rememberSender_ok hname hopen] at hrun
        cases hrun
        exact met_seenDesk desk hkey
    · intro _
      exact hnext
  exact hfrom desk hkey hkey

/-- Whatever is asked for but being seen and linked leaves the sender his key. -/
theorem ask_means (moment : Moment) {op : Op} {desk : Desk} (hmet : Met context key desk.files desk.bound) (hop : op.registers = false)
    (hmeans : ∀ reply, means ⟨desk.files, op, reply⟩) : Meant context key means desk (ask moment op desk).2 := by
  intro hkey
  rcases ask_cases moment op desk with hask | ⟨reply, files, hstep, hask⟩
  · rw [hask]
    exact ⟨hkey, _, rfl, by simp [hmeans]⟩
  · rw [hask]
    have haccounts : files.state.accounts = desk.files.state.accounts :=
      (congrArg Register.accounts ((step_goes hstep).register hop)).trans (remembers_accounts op desk.files.state)
    have hfiled : files.state.accounts.find (platformKey context.userId context.username context.accountName) =
        some key := by
      rw [haccounts]
      exact hmet.filed
    have hstays : senderKey context files.state = key := by
      rw [senderKey, keyFor, hfiled]
    exact ⟨hstays, _, rfl, by simp [hmeans]⟩

/-- What is known once it was looked whether a name is the sender's. -/
def Told (context : CommandContext) (key target : Str) (me : Bool) (desk : Desk) : Prop :=
  context.username ≠ [] → Met context key desk.files desk.bound ∧
    (key ≠ [] → namesPlayer desk.files.state key (withoutMention target) (platformOf target) = me)

/-- Something asked for under the sender's key, once more is known than that he was seen. -/
theorem asked_means {known : Desk → Prop} {op : Str → Op} {rest : Reply → Act Desk Answer}
    (hmet : ∀ desk, known desk → Met context key desk.files desk.bound) (hop : (op key).registers = false)
    (hmeans : ∀ desk reply, known desk → means ⟨desk.files, op key, reply⟩)
    (hrest : ∀ reply, (rest reply).Within (Meant context key means)) :
    (boundKey >>= fun bound => ask moment (op bound) >>= rest).WithinFrom known (Meant context key means) := by
  have := meant_preorder context key means
  intro desk hknown
  have hbound := (hmet desk hknown).bound
  rw [Act.run_bind_some (run_boundKey desk), hbound]
  have hask := ask_means moment (hmet desk hknown) hop fun reply => hmeans desk reply hknown
  rw [Act.run_bind]
  split
  · rename_i reply desk' heq
    rw [heq] at hask
    exact Trans.trans hask (hrest reply desk')
  · rename_i desk' heq
    rw [heq] at hask
    exact hask

omit [SlotCodec] [Clock] in
theorem pure_means {α : Type} (result : α) (known : Desk → Prop) :
    (pure result : Act Desk α).WithinFrom known (Meant context key means) :=
  have := meant_preorder context key means
  Act.withinFrom_of_within (Act.within_pure result) known

theorem tell_means (reply : Reply) : (tell moment reply).Within (Meant context key means) := by
  have courteous := meant_courteous context moment key means
  exact Act.within_ite
    (courteous.bind (courteous.glance _) fun _ => courteous.bind (courteous.consult _) fun _ => courteous.pure _)
    (courteous.pure _)

/-- A line that goes on once it is known whether it names its sender. -/
theorem namedThen_means {α : Type} {target : Str} {next : Bool → Act Desk α}
    (hnext : ∀ me, (next me).WithinFrom (Told context key target me) (Meant context key means)) :
    (namesMe moment target >>= next).WithinFrom
      (fun desk => context.username ≠ [] → Met context key desk.files desk.bound) (Meant context key means) := by
  have := meant_preorder context key means
  apply Act.withinFrom_bind (Act.withinFrom_of_within ((meant_courteous context moment key means).namesMe target) _) _ hnext
  intro desk me desk' hmet hrun hname
  have hmet := hmet hname
  rw [namesMe, Act.run_bind_some (run_boundKey desk), hmet.bound] at hrun
  split at hrun
  · rename_i hnone
    cases hrun
    exact ⟨hmet, fun hkey => absurd hnone hkey⟩
  · rw [consult, Prod.mk.injEq] at hrun
    obtain ⟨hme, rfl⟩ := hrun
    refine ⟨⟨hmet.bound, hmet.remembered, hmet.filed, hmet.named⟩, fun _ => ?_⟩
    split at hme
    · cases hme
    · exact Option.some.inj hme

section
variable {known : Desk → Prop} (hmet : ∀ desk, context.username ≠ [] → known desk → Met context key desk.files desk.bound)
include hmet

theorem handleRaid_means {target giftEmoji : Str} {gift : ℤ} {intact : Bool}
    (hmeans : ∀ desk reply now rules draws, context.username ≠ [] → known desk →
      means ⟨desk.files, .raidStart context.userId key now rules (errandTo target gift giftEmoji intact) draws, reply⟩) :
    (handleRaid context moment target gift giftEmoji intact).WithinFrom known (Meant context key means) := by
  rw [handleRaid]
  split
  · exact pure_means _ known
  · rename_i hname
    exact asked_means (fun desk => hmet desk hname) rfl (fun desk reply => hmeans desk reply _ _ _ hname)
      fun _ => (meant_courteous context moment key means).pure _

theorem handleBurn_means {amount : ℤ}
    (hmeans : ∀ desk reply, context.username ≠ [] → known desk → means ⟨desk.files, .palleBurn key amount, reply⟩) :
    (handleBurn context moment amount).WithinFrom known (Meant context key means) := by
  rw [handleBurn]
  split
  · exact pure_means _ known
  · rename_i hname
    exact asked_means (fun desk => hmet desk hname) rfl (fun desk reply => hmeans desk reply hname) tell_means

theorem handleEmojiBurn_means {emoji : Str} {destroy : Bool}
    (hmeans : ∀ desk reply now rules draws, context.username ≠ [] → known desk →
      means ⟨desk.files, .burn key emoji now rules destroy draws, reply⟩) :
    (handleEmojiBurn context moment emoji destroy).WithinFrom known (Meant context key means) := by
  rw [handleEmojiBurn]
  split
  · exact pure_means _ known
  · rename_i hname
    exact asked_means (fun desk => hmet desk hname) rfl (fun desk reply => hmeans desk reply _ _ _ hname) tell_means

theorem handleFurnitureMove_means {request : ParsedMove} (hname : context.username ≠ [])
    (hmeans : ∀ desk reply limit now, known desk →
      means ⟨desk.files, .move key request.source request.destination limit now, reply⟩) :
    (handleFurnitureMove context moment request).WithinFrom known (Meant context key means) :=
  asked_means (fun desk => hmet desk hname) rfl (fun desk reply => hmeans desk reply _ _) tell_means

end

theorem handleFurniture_means {wanted target : Str} {slot : Option ℤ}
    (hmeans : ∀ (desk : Desk) reply position cost limit now inflation,
      means ⟨desk.files, .buy key wanted position cost limit now inflation, reply⟩) :
    (handleFurniture context moment wanted slot).WithinFrom (Told context key target true) (Meant context key means) := by
  have := meant_preorder context key means
  have courteous := meant_courteous context moment key means
  rw [handleFurniture]
  split
  · exact pure_means _ _
  · rename_i hname
    have hprice (cost : ℤ) : (price moment cost).Within (Meant context key means) :=
      courteous.bind (courteous.glance _) fun _ => courteous.bind (courteous.consult _) fun _ => courteous.pure _
    apply Act.withinFrom_bind (K := fun _ => Told context key target true) (Act.withinFrom_of_within (hprice _) _)
    · intro desk cost desk' htold hrun hnamed
      have hsame := price_keeps hrun
      obtain ⟨hmet, hme⟩ := htold hnamed
      rw [hsame.1, hsame.2]
      exact ⟨hmet, hme⟩
    · intro cost
      apply Act.withinFrom_ite (pure_means _ _)
      exact asked_means (fun desk htold => (htold hname).1) rfl (fun desk reply _ => hmeans desk reply _ _ _ _ _) tell_means

/-- A ride that sets off is the errand it was asked for, to whoever the name leads to. -/
theorem starts_ride {call : Call} {ride : Raid} {userId : ℤ} {username : Str} {now : ℤ} {rules : RaidRules}
    {errand : Errand} {draws : StartDraws} (hop : call.op = .raidStart userId username now rules errand draws)
    (h : call.Starts ride) : ∃ target seconds,
      playerByName (rememberPlatform call.before.state username userId) errand.target errand.kind = some target ∧
        ride = errand.ride username target now seconds := by
  obtain ⟨reply, files, hstep, hpushed⟩ := h
  rw [hop] at hstep
  obtain ⟨result, hstart, -, -⟩ := Files.only_eq_ok hstep
  have hlonger : files.state.raids.length = call.before.state.raids.length + 1 := by
    rw [hpushed, List.length_append, List.length_singleton]
  cases (raidStart_setsOff hstart).2 with
  | stays notOff notTurned same =>
    rw [same] at hlonger
    omega
  | turns comes riding turned =>
    have hsame (raids : List Raid) (f : Raid → Raid) : (onFirst raids username f).length = raids.length := by
      induction raids with
      | nil => rfl
      | cons raid raids ih =>
        rw [onFirst]
        split
        · rfl
        · rw [List.length_cons, ih, List.length_cons]
    rw [turned, hsame] at hlonger
    omega
  | off target started away known fair fit pushed =>
    rw [pushed] at hpushed
    have hride := List.append_cancel_left hpushed
    rw [List.singleton_inj] at hride
    exact ⟨target, result.seconds, known, hride.symm⟩

/-- What sets off under the sender's key is what he wrote, whoever it goes to. -/
theorem setsOffWith_errand {call : Call} {userId : ℤ} {now : ℤ} {rules : RaidRules} {errand : Errand}
    {draws : StartDraws} {fits : Raid → Prop} (hop : call.op = .raidStart userId key now rules errand draws)
    (hfits : ∀ target seconds,
      playerByName (rememberPlatform call.before.state key userId) errand.target errand.kind = some target →
        fits (errand.ride key target now seconds)) : call.setsOffWith key fits := by
  refine ⟨⟨userId, now, rules, errand, draws, hop⟩, fun ride hstarts => ?_⟩
  obtain ⟨target, seconds, hknown, rfl⟩ := starts_ride hop hstarts
  exact ⟨rfl, hfits target seconds hknown⟩

omit [SlotCodec] [Clock] in
/-- A name that is not the sender's own does not lead to him. -/
theorem not_to_himself {desk : Desk} {target known : Str} (hname : context.username ≠ []) (hkey : key ≠ [])
    (htold : Told context key target false desk)
    (hknown : playerByName (rememberPlatform desk.files.state key context.userId) (withoutMention target)
      (platformOf target) = some known) : known ≠ key := by
  obtain ⟨hmet, hother⟩ := htold hname
  rw [hmet.remembered] at hknown
  rintro rfl
  have hfalse := hother hkey
  rw [namesPlayer, hknown] at hfalse
  simp at hfalse

omit [SlotCodec] [Clock] in
theorem palleBurn_spares (s : ConquisterState) {other : Str} (h : other ≠ key) (amount : ℤ) :
    Spares other s (palleBurn s key amount).2 := by
  simp only [palleBurn]
  split_ifs
  · exact .refl other s
  · exact .refl other s
  · exact .refl other s
  · exact Bypasses.toSpares (.score_set s h _)

omit [Clock] in
/-- An emoji that is destroyed was the sender's own, and lands on nobody. -/
theorem destroy_spares {s t : ConquisterState} {emoji : Str} {now : ℤ} {rules : RaidRules} {draws : LandDraws}
    {result : FurnitureBurnResult} (h : furnitureBurn s key emoji now rules true draws = .ok (result, t)) :
    t.raids = s.raids ∧ ∀ other, other ≠ key → Spares other s t := by
  rw [furnitureBurn] at h
  split at h
  · cases h
    exact ⟨rfl, fun other _ => .refl other s⟩
  · split at h
    · split at h
      · cases h
        exact ⟨rfl, fun other _ => .refl other s⟩
      · rw [if_neg (not_not_intro rfl)] at h
        cases h
        exact ⟨(burnChild_aside s key emoji).raids, fun other hother => burnChild_spares s hother emoji⟩
    · rename_i taken htaken
      rw [if_pos rfl] at h
      have hbolts := (thenLoseBolts_eq_ok h).2
      refine ⟨(loseBolts_aside hbolts).raids.trans (takeEmoji_aside htaken).raids, fun other hother => ?_⟩
      exact (takeEmoji_spares hother htaken).toSpares.trans (loseBolts_spares other hbolts)

/-- Palle are burnt by whoever writes it. -/
theorem palleBurn_standsFor {call : Call} {amount : ℤ} (hop : call.op = .palleBurn key amount) :
    Verb.burn.standsFor key call := by
  refine ⟨.inl ⟨amount, hop⟩, fun reply files hstep => ?_, fun reply files hstep other hother => ?_⟩
  · rw [hop] at hstep
    cases hstep
    exact (palleBurn_aside call.before.state key amount).raids
  · rw [hop] at hstep
    cases hstep
    exact palleBurn_spares call.before.state hother amount

theorem burn_standsFor {call : Call} {emoji : Str} {now : ℤ} {rules : RaidRules} {draws : LandDraws}
    (hop : call.op = .burn key emoji now rules true draws) (hone : Text.emojiCount emoji = some 1) :
    Verb.burn.standsFor key call := by
  have hburnt {reply : Reply} {files : Files} (hstep : step call.before call.op = .ok (reply, files)) :
      files.state.raids = call.before.state.raids ∧ ∀ other, other ≠ key → Spares other call.before.state files.state := by
    rw [hop] at hstep
    obtain ⟨result, hburn, -, -⟩ := Files.only_eq_ok hstep
    exact destroy_spares hburn
  exact ⟨.inr ⟨emoji, now, rules, draws, hop, hone⟩, fun _ _ hstep => (hburnt hstep).1, fun _ _ hstep => (hburnt hstep).2⟩

theorem buy_standsFor {call : Call} {emoji : Str} {position cost : ℤ} {limit : ℕ} {now inflation : ℤ}
    (hop : call.op = .buy key emoji position cost limit now inflation) : Verb.none.standsFor key call := by
  refine ⟨.inl ⟨emoji, position, cost, limit, now, inflation, hop⟩, fun reply files hstep => ?_⟩
  rw [hop] at hstep
  obtain ⟨result, hbuy, -, -⟩ := Files.only_eq_ok hstep
  exact (furnitureBuy_aside hbuy).raids

theorem move_standsFor {call : Call} {source target : ℤ} {limit : ℕ} {now : ℤ}
    (hop : call.op = .move key source target limit now) : Verb.none.standsFor key call := by
  refine ⟨.inr ⟨source, target, limit, now, hop⟩, fun reply files hstep => ?_⟩
  rw [hop] at hstep
  obtain ⟨result, hmove, -, -⟩ := Files.only_eq_ok hstep
  exact (furnitureMove_aside hmove).raids

omit [SlotCodec] [Clock] in
/-- A line on the sender's own name is told as such. -/
theorem own_name_told {desk : Desk} {me : Bool} (hname : context.username ≠ []) (hplain : plainName context = true)
    (hkey : key ≠ []) (htold : Told context key (ownName context) me desk) : me = true := by
  obtain ⟨hmet, hme⟩ := htold hname
  have hown : withoutMention (ownName context) = context.username ∧
      platformOf (ownName context) = if context.userId ≠ 0 then .telegram else .irc := by
    rw [plainName, Bool.and_eq_true, Bool.or_eq_true] at hplain
    by_cases hid : context.userId ≠ 0
    · simp [withoutMention, platformOf, ownName, hid]
    · have hbare : context.username.head? ≠ some mention := by
        rcases hplain.2 with htelegram | hbare
        · exact absurd (of_decide_eq_true htelegram) hid
        · exact of_decide_eq_true hbare
      simp only [withoutMention, platformOf, ownName, if_neg hid, List.nil_append]
      exact ⟨if_neg hbare, if_neg hbare⟩
  have hnamed := hme hkey
  rw [hown.1, hown.2, hmet.named] at hnamed
  exact hnamed.symm

/-- What a line can be on: what is burnt goes to the place, and what comes with no verb is on the sender's name. -/
structure Fits (context : CommandContext) (verb : Verb) (target : Str) : Prop where
  place : verb = .burn → namesThePlace target = true
  own : verb = .none → target = ownName context ∧ plainName context = true

section
variable {verb : Verb} (hkey : context.username ≠ [] → key ≠ [])
include hkey

theorem amountLine_means {transfer : ParsedAmount} (hfits : Fits context verb transfer.target) :
    (amountLine context moment verb transfer).Within (Meant context key (verb.standsFor key)) := by
  have courteous := meant_courteous context moment key (verb.standsFor key)
  have hspoken {act : Act Desk Answer} {known : Desk → Prop} (h : act.WithinFrom known (Meant context key (verb.standsFor key))) :
      (act >>= fun answer => pure (some answer)).WithinFrom known (Meant context key (verb.standsFor key)) :=
    have := courteous.preorder
    Act.withinFrom_bind h (fun _ _ _ _ _ => trivial) fun _ => pure_means _ fun _ => True
  apply Act.within_ite (courteous.pure _)
  by_cases husage : verb = .raid ∨ verb = .throw
  · rw [if_pos husage]
    exact courteous.pure _
  rw [if_neg husage]
  apply seenFirst_means
  by_cases hplace : namesThePlace transfer.target = true
  · rw [if_pos hplace]
    by_cases hburn : verb = .burn
    · subst hburn
      exact hspoken (handleBurn_means (fun desk hname hmet => hmet hname) fun desk reply _ _ => palleBurn_standsFor rfl)
    · rw [if_pos hburn]
      exact pure_means _ _
  · rw [if_neg hplace]
    apply namedThen_means
    intro me
    cases me with
    | true => exact pure_means _ _
    | false =>
      apply hspoken
      rw [handleGift]
      split
      · exact pure_means _ _
      · split
        · exact pure_means _ _
        · rename_i hamount
          apply handleRaid_means fun desk hname htold => (htold hname).1
          intro desk reply now rules draws hname htold
          cases verb with
          | raid => exact absurd (.inl rfl) husage
          | throw => exact absurd (.inr rfl) husage
          | burn => exact absurd (hfits.place rfl) hplace
          | give =>
            apply setsOffWith_errand rfl
            intro target seconds hknown
            exact ⟨by simp [Raid.presents, Errand.ride, errandTo, not_le.mp hamount],
              not_to_himself hname (hkey hname) htold hknown⟩
          | none =>
            obtain ⟨hown, hplain⟩ := hfits.own rfl
            rw [hown] at htold
            cases own_name_told hname hplain (hkey hname) htold

omit hkey in
theorem moveLine_means {request : ParsedMove} :
    (moveLine context moment verb request).Within (Meant context key (verb.standsFor key)) := by
  have courteous := meant_courteous context moment key (verb.standsFor key)
  apply Act.within_ite (courteous.pure _)
  by_cases hverb : verb = .none
  · subst hverb
    rw [if_neg (not_not_intro rfl)]
    apply seenFirst_means
    split
    · exact pure_means _ _
    · rename_i hname
      apply namedThen_means
      intro me
      apply Act.withinFrom_ite (pure_means _ _)
      have := courteous.preorder
      apply Act.withinFrom_bind _ (fun _ _ _ _ _ => trivial) fun _ => pure_means _ fun _ => True
      exact handleFurnitureMove_means (fun desk hname htold => (htold hname).1) hname
        fun desk reply limit now _ => move_standsFor rfl
  · rw [if_pos hverb]
    exact courteous.pure _

theorem emojiErrand_means {carried : ParsedEmoji} (hfits : Fits context verb carried.target) (hraid : verb ≠ .raid)
    (hone : Text.emojiCount carried.emoji = some 1) (hthrown : verb = .throw → isThrown carried.emoji = true) (me : Bool) :
    (emojiErrand context moment verb carried me).WithinFrom (Told context key carried.target me)
      (Meant context key (verb.standsFor key)) := by
  cases me with
  | true =>
    rw [emojiErrand, if_pos rfl]
    by_cases hverb : verb = .none
    · subst hverb
      exact handleFurniture_means fun desk reply position cost limit now inflation => buy_standsFor rfl
    · rw [if_pos hverb]
      exact pure_means _ _
  | false =>
    rw [emojiErrand, if_neg Bool.false_ne_true]
    apply Act.withinFrom_ite (pure_means _ _)
    have hmet (desk : Desk) (hname : context.username ≠ []) (htold : Told context key carried.target false desk) :=
      (htold hname).1
    have hother (desk : Desk) (hname : context.username ≠ []) (htold : Told context key carried.target false desk)
        (hverb : verb = .none) : False := by
      obtain ⟨hown, hplain⟩ := hfits.own hverb
      rw [hown] at htold
      cases own_name_told hname hplain (hkey hname) htold
    by_cases hplace : namesThePlace carried.target = true
    · rw [if_pos hplace]
      by_cases hburn : verb = .burn
      · subst hburn
        rw [if_pos rfl]
        exact handleEmojiBurn_means hmet fun desk reply now rules draws _ _ => burn_standsFor rfl hone
      · rw [if_neg hburn]
        by_cases hgive : verb = .give ∨ ¬ isThrown carried.emoji = true
        · rw [if_pos hgive]
          exact pure_means _ _
        · rw [if_neg hgive]
          rw [not_or, not_not] at hgive
          apply handleEmojiBurn_means hmet
          intro desk reply now rules draws hname htold
          cases verb with
          | throw => exact .inr ⟨_, _, _, _, rfl, hone, hgive.2⟩
          | none => exact (hother desk hname htold rfl).elim
          | raid => exact absurd rfl hraid
          | give => exact absurd rfl hgive.1
          | burn => exact absurd rfl hburn
    · rw [if_neg hplace]
      apply handleRaid_means hmet
      intro desk reply now rules draws hname htold
      cases verb with
      | give =>
        apply setsOffWith_errand rfl
        intro target seconds hknown
        exact ⟨by simp [Raid.presents, Errand.ride, errandTo, hone], not_to_himself hname (hkey hname) htold hknown⟩
      | throw =>
        left
        apply setsOffWith_errand rfl
        intro target seconds _
        simp [Raid.hurls, Errand.ride, errandTo, hone, hthrown rfl]
      | none => exact (hother desk hname htold rfl).elim
      | raid => exact absurd rfl hraid
      | burn => exact absurd (hfits.place rfl) hplace

theorem emojiLine_means {carried : ParsedEmoji} (hfits : Fits context verb carried.target) :
    (emojiLine context moment verb carried).Within (Meant context key (verb.standsFor key)) := by
  have courteous := meant_courteous context moment key (verb.standsFor key)
  apply Act.within_ite (courteous.pure _)
  by_cases hraid : verb = .raid
  · rw [if_pos hraid]
    exact courteous.pure _
  rw [if_neg hraid]
  apply seenFirst_means
  by_cases hone : Text.emojiCount carried.emoji = some 1
  · rw [if_neg (not_not_intro hone)]
    by_cases hthrow : verb = .throw ∧ ¬ isThrown carried.emoji = true
    · rw [if_pos hthrow]
      exact pure_means _ _
    · rw [if_neg hthrow]
      apply namedThen_means
      intro me
      have := courteous.preorder
      apply Act.withinFrom_bind _ (fun _ _ _ _ _ => trivial) fun _ => pure_means _ fun _ => True
      apply emojiErrand_means hkey hfits hraid hone
      intro hverb
      by_contra hnot
      exact hthrow ⟨hverb, hnot⟩
  · rw [if_pos hone]
    exact pure_means _ _

omit hkey in
theorem raidLine_means {target : Str} (hfits : verb ≠ .none) :
    (raidLine context moment verb target).Within (Meant context key (verb.standsFor key)) := by
  have courteous := meant_courteous context moment key (verb.standsFor key)
  have := courteous.preorder
  apply Act.within_ite (courteous.pure _)
  by_cases hraid : verb = .raid
  · subst hraid
    rw [if_neg (by simp)]
    apply seenFirst_means
    apply namedThen_means
    intro me
    apply Act.withinFrom_ite (pure_means _ _)
    apply Act.withinFrom_bind _ (fun _ _ _ _ _ => trivial) fun _ => pure_means _ fun _ => True
    apply handleRaid_means fun desk hname htold => (htold hname).1
    intro desk reply now rules draws _ _
    apply setsOffWith_errand rfl
    intro target seconds _
    rfl
  · rw [if_pos ⟨hfits, hraid⟩]
    exact courteous.pure _

/-- One grammar after another; what comes with no verb is no ride and no command. -/
theorem carryOut_means {line : Verbed}
    (hline : ∀ parts, targetAndRest line.message = some parts → Fits context line.verb parts.1)
    (hbare : line.verb = .none → line.message ≠ conquisterTrigger ∧ raidTarget line.message = [] ∧
      findCommand (parseCommand line.message).name = none) :
    (carryOut context moment line).Within (Meant context key (line.verb.standsFor key)) := by
  have courteous := meant_courteous context moment key (line.verb.standsFor key)
  rw [carryOut]
  by_cases hplace : line.message = conquisterTrigger
  · rw [if_pos hplace, enterLine]
    have hverb : line.verb ≠ .none := fun hnone => (hbare hnone).1 hplace
    rw [if_pos hverb]
    exact Act.within_ite (courteous.pure _) (courteous.pure _)
  rw [if_neg hplace]
  split
  · rename_i transfer hamount
    obtain ⟨parts, hparts, hread⟩ := Option.bind_eq_some_iff.mp hamount
    obtain ⟨amount, -, rfl⟩ := Option.map_eq_some_iff.mp hread
    exact amountLine_means hkey (hline parts hparts)
  split
  · exact moveLine_means
  split
  · rename_i carried hemoji
    obtain ⟨parts, hparts, hread⟩ := Option.bind_eq_some_iff.mp hemoji
    dsimp only at hread
    split at hread
    · cases hread
    · cases hread
      exact emojiLine_means hkey (hline parts hparts)
  by_cases hverb : line.verb = .none
  · obtain ⟨-, htarget, hcommand⟩ := hbare hverb
    rw [htarget, if_neg (not_not_intro rfl), if_neg (not_not_intro hverb), hcommand]
    exact Act.within_ite (courteous.pure _) (courteous.pure _)
  · rw [if_pos hverb]
    exact Act.within_ite (raidLine_means hverb) (courteous.pure _)

end

end

def lineOn (name argument : Str) : Str := raidTrigger ++ (name ++ utf8 " " ++ argument)

theorem afterRaidTrigger_append (rest : Str) : afterRaidTrigger (raidTrigger ++ rest) = some rest := by
  rw [afterRaidTrigger, if_pos (List.isPrefixOf_iff_prefix.mpr (List.prefix_append _ _)), List.drop_left]

theorem any_isBlank_lineOn (name argument : Str) : (name ++ utf8 " " ++ argument).any isBlank = true := by
  rw [List.any_append, List.any_append, show (utf8 " ").any isBlank = true by decide, Bool.or_true, Bool.true_or]

section
variable {name argument : Str} (hname : name.any isBlank = false)
include hname

/-- The name a line is on is the word it begins with. -/
theorem target_lineOn {parts : Str × Str} (h : targetAndRest (lineOn name argument) = some parts) : parts.1 = name := by
  rw [targetAndRest, lineOn, afterRaidTrigger_append, Option.bind_some] at h
  dsimp only at h
  split at h
  · cases h
    rw [List.append_assoc, List.takeWhile_append_of_pos, show utf8 " " = [32] by decide]
    · exact List.append_nil name
    · intro character hcharacter
      rw [List.any_eq_false] at hname
      simpa using hname character hcharacter
  · cases h

omit hname in
theorem raidTarget_lineOn : raidTarget (lineOn name argument) = [] := by
  rw [raidTarget, lineOn, afterRaidTrigger_append]
  split
  · rfl
  · apply if_neg
    rw [validRaidTarget, any_isBlank_lineOn]
    simp

omit hname in
theorem lineOn_ne : lineOn name argument ≠ conquisterTrigger := by
  intro hplace
  have hsame : name ++ utf8 " " ++ argument = conquisterPlace := List.append_cancel_left hplace
  have hblank := any_isBlank_lineOn name argument
  rw [hsame] at hblank
  revert hblank
  decide

end

theorem verb_name {command : Command} (h : verbOf command.name ≠ .none) : command.name ≠ adventureCommand ∧
    command.name ≠ backCommand ∧ command.name ≠ moveCommand ∧ command.name ≠ buyCommand := by
  cases command <;> revert h <;> decide

/-- A verb with something after it becomes a line; bare, it stays a command. -/
theorem expanded_verb {context : CommandContext} {text : Str} {command : Command} (hverb : verbOf command.name ≠ .none)
    (h : asksFor text command = true) : expanded context text = ⟨.none, Text.trim text⟩ ∨
      ∃ argument, expanded context text = ⟨verbOf command.name,
        if verbOf command.name = .burn then lineOn conquisterPlace argument else raidTrigger ++ argument⟩ := by
  have hname : (parseCommand (Text.trim text)).name = command.name := of_decide_eq_true h
  obtain ⟨hadventure, hback, hmove, hbuy⟩ := verb_name hverb
  have hsame : expandBuy context (Text.trim text) = Text.trim text := by
    rw [expandBuy, hname]
    split
    · rfl
    · rw [if_neg (not_and.mpr fun hboth => absurd hboth hmove), if_pos (.inl hbuy)]
  rw [expanded, expandAdventure, hname, if_pos hadventure, hsame, expandVerb, hname]
  by_cases hbare : (parseCommand (Text.trim text)).argument = []
  · rw [if_pos (.inr hbare)]
    exact .inl rfl
  · rw [if_neg (not_or.mpr ⟨hverb, hbare⟩)]
    right
    refine ⟨(parseCommand (Text.trim text)).argument, ?_⟩
    by_cases hburn : verbOf command.name = .burn
    · rw [if_pos hburn, if_pos hburn, lineOn, show conquisterTrigger = raidTrigger ++ conquisterPlace by decide]
      simp only [List.append_assoc]
    · rw [if_neg hburn, if_neg hburn]

/-- What is bought and what is moved becomes a line on the sender's own name, or stays a command. -/
theorem expanded_own {context : CommandContext} {text : Str} {command : Command} (hcommand : command = .buy ∨ command = .move)
    (h : asksFor text command = true) : expanded context text = ⟨.none, Text.trim text⟩ ∨
      ∃ argument, expanded context text = ⟨.none, lineOn (ownName context) argument⟩ := by
  have hname : (parseCommand (Text.trim text)).name = command.name := of_decide_eq_true h
  have hadventure : command.name ≠ adventureCommand := by cases command <;> decide
  have hverb : verbOf command.name = .none := by rcases hcommand with rfl | rfl <;> decide
  have hplain : expandVerb (Text.trim text) = ⟨.none, Text.trim text⟩ := by
    rw [expandVerb, hname, if_pos (.inl hverb)]
  have hline (argument : Str) :
      expandVerb (raidTrigger ++ ownName context ++ utf8 " " ++ argument) = ⟨.none, lineOn (ownName context) argument⟩ := by
    simp only [lineOn, List.append_assoc]
    exact expandVerb_raidTrigger _
  have hback : command.name ≠ backCommand := by rcases hcommand with rfl | rfl <;> decide
  rw [expanded, expandAdventure, hname, if_pos hadventure, expandBuy, hname]
  split
  · exact .inl hplain
  split
  · exact .inr ⟨_, hline _⟩
  split
  · exact .inl hplain
  · exact .inr ⟨_, hline _⟩

section
variable [SlotCodec] [Clock] {context : CommandContext} {moment : Moment} {key : Str} {means : Call → Prop}

/-- Bare, they ask for nothing. -/
theorem bare_means {text : Str} {command : Command} (h : asksFor text command = true)
    (hbare : verbOf command.name ≠ .none ∨ command = .buy ∨ command = .move) :
    (carryOut context moment ⟨.none, Text.trim text⟩).Within (Meant context key means) := by
  have courteous := meant_courteous context moment key means
  have hpure (answer : Answer) : (rememberSender context moment >>= fun _ => pure answer >>= fun answer =>
      pure (some answer)).Within (Meant context key means) :=
    courteous.bind courteous.remember fun _ => courteous.bind (courteous.pure _) fun _ => courteous.pure _
  rw [carryOut_command (of_decide_eq_true h)]
  cases command with
  | buy | raid | give | throw | burn | move => exact hpure _
  | _ => exact absurd hbare (by decide)

section
variable {text : Str} (hkey : context.username ≠ [] → key ≠ [])
include hkey

/-- What is written after a verb is asked for as the verb means it. -/
theorem verb_means {command : Command} (hverb : verbOf command.name ≠ .none) (h : asksFor text command = true) :
    (carryOut context moment (expanded context text)).Within (Meant context key ((verbOf command.name).standsFor key)) := by
  rcases expanded_verb hverb h with hline | ⟨argument, hline⟩
  · rw [hline]
    exact bare_means h (.inl hverb)
  · rw [hline]
    apply carryOut_means hkey
    · intro parts hparts
      refine ⟨fun hburn => ?_, fun hnone => absurd hnone hverb⟩
      dsimp only at hburn hparts
      rw [if_pos hburn] at hparts
      rw [target_lineOn (by decide) hparts]
      decide
    · intro hnone
      exact absurd hnone hverb

theorem own_means {command : Command} (hcommand : command = .buy ∨ command = .move) (h : asksFor text command = true)
    (hplain : plainName context = true) :
    (carryOut context moment (expanded context text)).Within (Meant context key (Verb.none.standsFor key)) := by
  rcases expanded_own hcommand h with hline | ⟨argument, hline⟩
  · rw [hline]
    exact bare_means h (.inr hcommand)
  · have hword : (ownName context).any isBlank = false := by
      have hplain' := hplain
      rw [plainName, Bool.and_eq_true, Bool.not_eq_true'] at hplain'
      rw [ownName, List.any_append, hplain'.1]
      split
      · decide
      · rfl
    rw [hline]
    apply carryOut_means hkey
    · intro parts hparts
      rw [target_lineOn hword hparts]
      exact ⟨nofun, fun _ => ⟨rfl, hplain⟩⟩
    · intro _
      refine ⟨lineOn_ne, raidTarget_lineOn, ?_⟩
      rw [lineOn, parseCommand_raidTrigger]
      decide

end

/-- A "We " line but for the bare one is either answered with the command that does the same, or not at all. -/
theorem weLine_means {text : Str} (h : isWeLine text = true) :
    (dispatch context moment text).Within (Meant context key means) := by
  have courteous := meant_courteous context moment key means
  have := courteous.preorder
  rw [isWeLine, Bool.and_eq_true] at h
  have hname := name_of_isPrefixOf h.1
  have hadventure : expandAdventure (Text.trim text) = Text.trim text := by
    rw [expandAdventure, hname]
    rfl
  by_cases hold : isOldLine text = true
  · apply Act.within_caught
    apply courteous.bind (courteous.turnAway text)
    intro refused
    split
    · exact courteous.pure _
    · apply Act.within_bind_of_yields (courteous.oldLineInstead text) (oldLineInstead_yields hold)
      intro instead hsome
      cases instead with
      | none => cases hsome
      | some line => exact courteous.pure _
  · apply courteous.dispatch
    have hunanswered : (expanded context text).answered = false := by
      obtain ⟨rest, hrest⟩ := List.isPrefixOf_iff_prefix.mp h.1
      have hbuy : expandBuy context (Text.trim text) = Text.trim text := by
        by_contra hother
        have hhandled := (expandBuy_ne hother).1
        rw [← hrest, handled_raidTrigger] at hhandled
        cases hhandled
      rw [expanded, hadventure, hbuy, answered_expandVerb, ← hrest, handled_raidTrigger, hrest, Bool.or_false]
      rw [isOldLine, hadventure, h.1, h.2] at hold
      simpa using hold
    rw [carryOut_pure hunanswered]
    exact courteous.pure _

theorem askedAfter_means {op : Op} (hop : op.courtesy = true) : (ask moment op).Within (Asked means) := by
  intro desk
  rcases ask_cases moment op desk with hask | ⟨reply, files, -, hask⟩
  · rw [hask]
    exact ⟨_, rfl, by simp [hop]⟩
  · rw [hask]
    exact ⟨_, rfl, by simp [hop]⟩

/-- The invite and the guide are courtesies too. -/
theorem afterReply_means (seen : Str) (answer : Answer) : (afterReply moment seen answer).Within (Asked means) := by
  have := asked_preorder means
  apply Act.within_bind
  · apply Act.within_caught
    apply Act.within_bind (askedAfter_means rfl)
    intro reply
    split
    · exact Act.within_pure _
    · exact Act.within_pure _
  · intro paid
    split
    · exact Act.within_pure _
    · apply Act.within_bind
      · apply Act.within_caught
        apply Act.within_bind (askedAfter_means rfl)
        intro reply
        split
        · exact Act.within_pure _
        · exact Act.within_pure _
      · intro guide
        exact Act.within_pure _

theorem errands_mean {bot : Bot} {message : Message}
    (h : (dispatch message.context message.moment message.text).Within
      (Meant message.context (senderKey message.context bot.files.state) means)) :
    ∀ call ∈ errands bot message, means call := by
  have := asked_preorder means
  have hmessage : (commandDispatch message.context message.moment message.text).WithinFrom
      (fun desk => senderKey message.context desk.files.state = senderKey message.context bot.files.state)
      (Asked means) := by
    have hdispatch : (dispatch message.context message.moment message.text).WithinFrom
        (fun desk => senderKey message.context desk.files.state = senderKey message.context bot.files.state)
        (Asked means) := fun desk hkey => (h desk hkey).2
    rw [commandDispatch]
    refine Act.withinFrom_bind (K := fun _ _ => True) hdispatch (fun _ _ _ _ _ => trivial) fun answer => ?_
    apply Act.withinFrom_of_within
    have hbound : boundKey.Within (Asked means) := fun desk => .of_same rfl
    apply Act.within_bind hbound
    intro seen
    split
    · exact Act.within_pure _
    · apply Act.within_ite
      · exact Act.within_pure _
      · exact Act.within_bind (afterReply_means _ _) fun spoken => Act.within_pure _
  obtain ⟨since, hcalls, hmeans⟩ := hmessage bot.desk rfl
  intro call hcall
  rw [errands, List.mem_filter] at hcall
  have hsince : call ∈ since := by
    have hheard := hcall.1
    rw [Bot.hear, hcalls] at hheard
    exact hheard
  rcases hmeans call hsince with hcourtesy | hmeant
  · rw [hcourtesy] at hcall
    cases hcall.2
  · exact hmeant

/-- What a message asks the game for, by the verb it begins with. -/
structure HoldsToItsVerb (bot : Bot) (message : Message) (key : Str) : Prop where
  raid : asksFor message.text .raid = true → ∀ call ∈ errands bot message, Verb.raid.standsFor key call
  give : asksFor message.text .give = true → ∀ call ∈ errands bot message, Verb.give.standsFor key call
  throw : asksFor message.text .throw = true → ∀ call ∈ errands bot message, Verb.throw.standsFor key call
  burn : asksFor message.text .burn = true → ∀ call ∈ errands bot message, Verb.burn.standsFor key call
  own : asksFor message.text .buy = true ∨ asksFor message.text .move = true → plainName message.context = true →
    ∀ call ∈ errands bot message, Verb.none.standsFor key call
  we : isWeLine message.text = true → errands bot message = []
  /-- Nothing else comes on file. -/
  filed : (bot.hear message).2.files = bot.files.run (carriedOut (bot.hear message).2.calls)

/-- Whatever was heard before, and whatever is written after it, each verb holds to its own meaning. -/
theorem each_verb_holds_to_its_own {bot : Bot} (hnamed : AllNamed bot.files.state) (events : List Event)
    (message : Message) : HoldsToItsVerb (bot.run events) message
      (senderKey message.context (bot.run events).files.state) := by
  have hkey : message.context.username ≠ [] → senderKey message.context (bot.run events).files.state ≠ [] :=
    (run_named hnamed events).keyFor
  have courteous {means : Call → Prop} := meant_courteous message.context message.moment
    (senderKey message.context (bot.run events).files.state) means
  have hverb {command : Command} (hcommand : verbOf command.name ≠ .none) (h : asksFor message.text command = true) :=
    errands_mean (courteous.dispatch message.text (verb_means hkey hcommand h))
  refine ⟨hverb (by decide), hverb (by decide), hverb (by decide), hverb (by decide), ?_, ?_, hear_filed _ _⟩
  · rintro (hbuy | hmove) hplain
    · exact errands_mean (courteous.dispatch message.text (own_means hkey (.inl rfl) hbuy hplain))
    · exact errands_mean (courteous.dispatch message.text (own_means hkey (.inr rfl) hmove hplain))
  · intro hwe
    have hnone : ∀ call ∈ errands (bot.run events) message, False := errands_mean (weLine_means hwe)
    exact List.eq_nil_iff_forall_not_mem.mpr hnone

end

theorem allNamed_empty : AllNamed {} where
  accounts := nofun
  ids := List.not_mem_nil
  seat := nofun

def givesBeer : Message where
  context := { username := utf8 "alice" }
  moment := { now := day 90, start := ⟨[1], [2]⟩ }
  text := utf8 "/give bob 🍺"

theorem each_verb_holds_to_its_own_beer :
    @HoldsToItsVerb _ utc (@Bot.run _ utc {} (bringsBeer.take 4)) givesBeer
      (senderKey givesBeer.context (@Bot.run _ utc {} (bringsBeer.take 4)).files.state) ∧
    asksFor givesBeer.text .give = true ∧
    (@errands _ utc (@Bot.run _ utc {} (bringsBeer.take 4)) givesBeer).length = 1 :=
  ⟨@each_verb_holds_to_its_own _ utc {} allNamed_empty (bringsBeer.take 4) givesBeer, by decide +kernel, by decide +kernel⟩

/-- Ada played three days in the place Zoe brought her to. -/
def playsThreeDays : List Event := [
  onIrcAt "zoe" (day 1) "/help",
  onIrcAt "ada" (day 2) "/help",
  onIrcAt "ada" (day 2) "/invitedby zoe",
  onIrcAt "ada" (day 3) "/help"]

def callsHimselfZoe : List Event := [
  .message { context := { userId := 7, username := utf8 "zoe" }, moment := { now := day 1 }, text := utf8 "/help" },
  .message { context := { username := utf8 "bob", accountName := utf8 "bob" }, moment := { now := day 1 }, text := conquisterTrigger },
  .message { context := { username := utf8 "bob", accountName := utf8 "bob" }, moment := { now := day 90 }, text := utf8 "/back" },
  .message { context := { username := utf8 "@zoe", accountName := utf8 "bob" }, moment := { now := day 90, start := ⟨[1], [2]⟩ }
             text := utf8 "/buy 5" }]

/-- A line that is only answered with a hint pays an invite, and what is bought under another's name is brought to him. -/
theorem hint_pays_invite :
    isWeLine (utf8 "We zoe") = true ∧
    counter (@Bot.run _ utc {} playsThreeDays).files.state.scores (utf8 "irc:zoe") = 0 ∧
    counter (@Bot.run _ utc {} (playsThreeDays ++ [onIrcAt "ada" (day 4) "We zoe"])).files.state.scores (utf8 "irc:zoe") = 1000 ∧
    (@Bot.run _ utc {} callsHimselfZoe).files.state.raids.map Raid.gift = [5] := by
  decide +kernel

end NorelecBot
