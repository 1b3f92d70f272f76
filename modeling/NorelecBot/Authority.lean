import NorelecBot.Blocked
import NorelecBot.Credits
import NorelecBot.Mentions
import NorelecBot.SelfRides

/-! # Who may do what

Whatever is written, a message does things as the player its sender was seen as, and
as nobody else. Deleting quotes is for the trusted; the debug switch, and letting back
in whoever the sentinel keeps out, are for the owners. Nothing gets among the quotes
that the settings forbid or that would tag somebody.
-/

namespace NorelecBot
open Lib

def Op.actor : Op → Option Str
  | .claim _ username .. => some username
  | .raidStart _ username .. => some username
  | .buy username .. => some username
  | .move username .. => some username
  | .burn player .. => some player
  | .palleBurn player _ => some player
  | .take player .. => some player
  | .store player .. => some player
  | .quoteAdd username .. => some username
  | .guide player => some player
  | .invite newcomer .. => some newcomer
  | .reward newcomer _ => some newcomer
  | .debug username _ => some username
  | _ => none

/-- What may stand among the quotes: it says something, tags nobody and holds nothing forbidden. -/
structure CleanQuote (banned : List Str) (quote : Str) : Prop where
  worded : quote ≠ []
  quiet : Quiet false quote
  allowed : banned.any (containsIgnoreCase quote) = false

section
variable [SlotCodec] [Clock] (context : CommandContext) (moment : Moment)

/-- What a message may ask of the game at all. -/
def Op.Granted : Op → Prop
  | .claim userId .. => userId = context.userId
  | .raidStart userId .. => userId = context.userId
  | .seen userId username accountName furnitureLimit now =>
    Op.seen userId username accountName furnitureLimit now = seenOp context moment
  | .link userId username _ accountName =>
    userId = context.userId ∧ username = context.username ∧ accountName = context.accountName
  | .quoteAdd _ quote _ => CleanQuote context.config.quoteBanned quote
  | .quoteDelete _ => trusted context = true
  | .debug .. => context.owner = true
  | .raidDue .. | .handOut .. | .sortOut => False
  | _ => True

/-- The sender was seen as that player, the one his name stood for; who was not seen is nobody. -/
def SeenAs (calls : List Call) (player : Str) : Prop :=
  player = [] ∨ ∃ call ∈ calls, call.op = seenOp context moment ∧ call.reply = some (.seen player) ∧
    player = senderKey context call.before.state

/-- What was asked for may be, and was asked for as the player the sender was seen as. -/
structure Call.Permitted (calls : List Call) (call : Call) : Prop where
  granted : call.op.Granted context moment
  actor : ∀ player, call.op.actor = some player → SeenAs context moment calls player

structure Acting (before after : Desk) : Prop where
  calls : ∃ since, after.calls = before.calls ++ since ∧
    (SeenAs context moment before.calls before.bound → SeenAs context moment after.calls after.bound ∧
      ∀ call ∈ since, call.Permitted context moment after.calls)
  blocked : context.owner = false → after.sentinel.blocked = before.sentinel.blocked
  quotes : trusted context = false → ∃ added, after.files.quotes = before.files.quotes ++ added ∧
    ∀ quote ∈ added, CleanQuote context.config.quoteBanned quote
  clean : ∀ quote ∈ after.files.quotes, quote ∈ before.files.quotes ∨ CleanQuote context.config.quoteBanned quote

variable {context moment}

omit [SlotCodec] [Clock] in
theorem SeenAs.mono {calls since : List Call} {player : Str} (h : SeenAs context moment calls player) :
    SeenAs context moment (calls ++ since) player := by
  rcases h with hnobody | ⟨call, hcall, hseen⟩
  · exact .inl hnobody
  · exact .inr ⟨call, List.mem_append_left since hcall, hseen⟩

omit [SlotCodec] [Clock] in
theorem Call.Permitted.mono {calls since : List Call} {call : Call} (h : call.Permitted context moment calls) :
    call.Permitted context moment (calls ++ since) :=
  ⟨h.granted, fun player hplayer => (h.actor player hplayer).mono⟩

omit [SlotCodec] [Clock] in
theorem Acting.of_same {before after : Desk} (hcalls : after.calls = before.calls) (hbound : after.bound = before.bound)
    (hfiles : after.files = before.files)
    (hblocked : context.owner = false → after.sentinel.blocked = before.sentinel.blocked) :
    Acting context moment before after where
  calls := ⟨[], by simp [hcalls], fun hseen => ⟨by rwa [hcalls, hbound], by simp⟩⟩
  blocked := hblocked
  quotes _ := ⟨[], by simp [hfiles], by simp⟩
  clean quote hquote := .inl (hfiles ▸ hquote)

omit [SlotCodec] [Clock] in
theorem acting_preorder : IsPreorder Desk (Acting context moment) where
  refl := fun _ => .of_same rfl rfl rfl fun _ => rfl
  trans := by
    intro first second third h h'
    obtain ⟨since, hcalls, hseen⟩ := h.calls
    obtain ⟨later, hcalls', hseen'⟩ := h'.calls
    refine ⟨⟨since ++ later, by rw [hcalls', hcalls, List.append_assoc], ?_⟩, ?_, ?_, ?_⟩
    · intro hbound
      obtain ⟨hsecond, hpermitted⟩ := hseen hbound
      obtain ⟨hthird, hpermitted'⟩ := hseen' hsecond
      refine ⟨hthird, List.forall_mem_append.mpr ⟨?_, hpermitted'⟩⟩
      intro call hcall
      rw [hcalls']
      exact (hpermitted call hcall).mono
    · exact fun howner => (h'.blocked howner).trans (h.blocked howner)
    · intro htrusted
      obtain ⟨added, hquotes, hclean⟩ := h.quotes htrusted
      obtain ⟨more, hquotes', hclean'⟩ := h'.quotes htrusted
      exact ⟨added ++ more, by rw [hquotes', hquotes, List.append_assoc], List.forall_mem_append.mpr ⟨hclean, hclean'⟩⟩
    · intro quote hquote
      rcases h'.clean quote hquote with hold | hclean
      · exact h.clean quote hold
      · exact .inr hclean

/-- What may be asked for is asked for as it may. -/
theorem ask_acting {op : Op} {desk : Desk} (hgranted : op.Granted context moment)
    (hactor : SeenAs context moment desk.calls desk.bound → ∀ player, op.actor = some player →
      SeenAs context moment desk.calls player) : Acting context moment desk (ask moment op desk).2 := by
  have hcalls (reply : Option Reply) : ∃ since, desk.calls ++ [Call.mk desk.files op reply] = desk.calls ++ since ∧
      (SeenAs context moment desk.calls desk.bound →
        SeenAs context moment (desk.calls ++ [⟨desk.files, op, reply⟩]) desk.bound ∧
          ∀ call ∈ since, call.Permitted context moment (desk.calls ++ [⟨desk.files, op, reply⟩])) := by
    refine ⟨_, rfl, fun hseen => ⟨hseen.mono, List.forall_mem_singleton.mpr ⟨hgranted, ?_⟩⟩⟩
    exact fun player hplayer => (hactor hseen player hplayer).mono
  rcases ask_cases moment op desk with hask | ⟨reply, files, hstep, hask⟩
  · rw [hask]
    exact ⟨hcalls none, fun _ => rfl, fun _ => ⟨[], by simp, by simp⟩, fun quote hquote => .inl hquote⟩
  · rw [hask]
    refine ⟨hcalls (some reply), fun _ => rfl, ?_, ?_⟩
    · intro htrusted
      rcases step_quotes hstep with hsame | ⟨username, quote, cost, rfl, hmore⟩ | ⟨selector, rfl, -⟩
      · exact ⟨[], by simp [hsame], by simp⟩
      · exact ⟨[quote], hmore, List.forall_mem_singleton.mpr hgranted⟩
      · exact absurd hgranted (by simp [Op.Granted, htrusted])
    · intro quote hquote
      change quote ∈ files.quotes at hquote
      rcases step_quotes hstep with hsame | ⟨username, added, cost, rfl, hmore⟩ | ⟨selector, rfl, hfewer⟩
      · exact .inl (hsame ▸ hquote)
      · rw [hmore, List.mem_append, List.mem_singleton] at hquote
        rcases hquote with hold | rfl
        · exact .inl hold
        · exact .inr hgranted
      · exact .inl (hfewer.subset hquote)

/-- What is asked for as the player on the desk. -/
theorem asked_acting {op : Str → Op} {rest : Reply → Act Desk Answer} (hgranted : ∀ key, (op key).Granted context moment)
    (hactor : ∀ key player, (op key).actor = some player → player = key)
    (hrest : ∀ reply, (rest reply).Within (Acting context moment)) :
    (boundKey >>= fun key => ask moment (op key) >>= rest).Within (Acting context moment) := by
  have := @acting_preorder context moment
  intro desk
  have hask : Acting context moment desk (ask moment (op desk.bound) desk).2 := by
    apply ask_acting (hgranted desk.bound)
    intro hseen player hplayer
    rwa [hactor desk.bound player hplayer]
  rw [Act.run_bind_some (run_boundKey desk), Act.run_bind]
  split
  · rename_i reply desk' heq
    rw [heq] at hask
    exact Trans.trans hask (hrest reply desk')
  · rename_i desk' heq
    rw [heq] at hask
    exact hask

/-- What is asked for as nobody in particular. -/
theorem ask_acting_free {op : Op} (hgranted : op.Granted context moment) (hactor : op.actor = none) :
    (ask moment op).Within (Acting context moment) :=
  fun _ => ask_acting hgranted fun _ player hplayer => by simp [hactor] at hplayer

theorem acting_courteous : Courteous context moment (Acting context moment) where
  preorder := acting_preorder
  consult _ _ := .of_same rfl rfl rfl fun _ => rfl
  remember := by
    intro desk
    by_cases hname : context.username = []
    · rw [rememberSender, if_pos hname]
      exact .of_same rfl rfl rfl fun _ => rfl
    · cases hfails : moment.fails desk.opened with
      | true =>
        have hask := @ask_acting_free _ _ context moment (seenOp context moment) rfl rfl desk
        rw [ask_failed hfails] at hask
        rw [rememberSender_failed hname hfails]
        exact hask
      | false =>
        rw [rememberSender_ok hname hfails]
        refine ⟨⟨_, rfl, fun _ => ?_⟩, fun _ => rfl, fun _ => ⟨[], by simp [seenDesk], by simp⟩, fun quote hquote => .inl hquote⟩
        have hseen : SeenAs context moment (seenDesk context moment desk).calls (senderKey context desk.files.state) :=
          .inr ⟨_, List.mem_append_right _ List.mem_cons_self, rfl, rfl, rfl⟩
        exact ⟨hseen, List.forall_mem_singleton.mpr ⟨rfl, fun player hplayer => by cases hplayer⟩⟩
  tellBlocked player now desk := .of_same rfl rfl rfl fun _ => tellBlocked_blocked desk.sentinel player now

theorem acting_pure {α : Type} (result : α) : (pure result : Act Desk α).Within (Acting context moment) :=
  acting_courteous.pure result

theorem acting_bind {α β : Type} {act : Act Desk α} {next : α → Act Desk β} (hact : act.Within (Acting context moment))
    (hnext : ∀ result, (next result).Within (Acting context moment)) : (act >>= next).Within (Acting context moment) :=
  acting_courteous.bind hact hnext

theorem acting_consult {α : Type} (f : Files → α) : (consult moment f).Within (Acting context moment) :=
  acting_courteous.consult f

theorem acting_boundKey : boundKey.Within (Acting context moment) := acting_courteous.glance _

theorem acting_price (cost : ℤ) : (price moment cost).Within (Acting context moment) :=
  acting_bind acting_boundKey fun _ => acting_bind (acting_consult _) fun _ => acting_pure _

theorem acting_tell (reply : Reply) : (tell moment reply).Within (Acting context moment) :=
  Act.within_ite
    (acting_bind acting_boundKey fun _ => acting_bind (acting_consult _) fun _ => acting_pure _) (acting_pure _)

theorem acting_showPlayer (command : Command) (argument : Str) :
    (showPlayer context moment command argument).Within (Acting context moment) := by
  apply Act.within_ite
  · exact Act.within_ite (acting_pure _) (acting_bind (acting_consult _) fun _ => acting_pure _)
  · exact acting_bind (acting_consult _) fun _ => acting_pure _

/-- Asked for as the player on the desk, and told. -/
theorem acting_asked {op : Str → Op} (hgranted : ∀ key, (op key).Granted context moment)
    (hactor : ∀ key, (op key).actor = some key) :
    (boundKey >>= fun key => ask moment (op key) >>= fun reply => tell moment reply).Within (Acting context moment) :=
  asked_acting hgranted (fun key _ hplayer => Option.some.inj (hplayer.symm.trans (hactor key))) fun reply => acting_tell reply

/-- Asked for as the player on the desk, and answered as it is. -/
theorem acting_answered {op : Str → Op} (hgranted : ∀ key, (op key).Granted context moment)
    (hactor : ∀ key, (op key).actor = some key) :
    (boundKey >>= fun key => ask moment (op key) >>= fun reply => pure (Answer.game reply)).Within (Acting context moment) :=
  asked_acting hgranted (fun key _ hplayer => Option.some.inj (hplayer.symm.trans (hactor key))) fun _ => acting_pure _

theorem acting_raid (target : Str) (gift : ℤ) (giftEmoji : Str) (intact : Bool) :
    (handleRaid context moment target gift giftEmoji intact).Within (Acting context moment) :=
  Act.within_ite (acting_pure _) (acting_answered (fun _ => rfl) fun _ => rfl)

theorem acting_gift (request : ParsedAmount) : (handleGift context moment request).Within (Acting context moment) :=
  Act.within_ite (acting_pure _) (Act.within_ite (acting_pure _) (acting_raid _ _ _ _))

theorem acting_burn (amount : ℤ) : (handleBurn context moment amount).Within (Acting context moment) :=
  Act.within_ite (acting_pure _) (acting_asked (fun _ => trivial) fun _ => rfl)

theorem acting_move (request : ParsedMove) : (handleFurnitureMove context moment request).Within (Acting context moment) :=
  acting_asked (fun _ => trivial) fun _ => rfl

theorem acting_emojiBurn (emoji : Str) (destroy : Bool) :
    (handleEmojiBurn context moment emoji destroy).Within (Acting context moment) :=
  Act.within_ite (acting_pure _) (acting_asked (fun _ => trivial) fun _ => rfl)

theorem acting_tellClaim (result : ClaimResult) : (tellClaim moment result).Within (Acting context moment) := by
  apply Act.within_ite (acting_pure _)
  apply acting_bind (acting_consult _)
  intro _
  apply Act.within_ite (acting_pure _)
  exact acting_bind (Act.within_caught (acting_consult _) _) fun _ => acting_pure _

theorem acting_claim : (handleClaim context moment).Within (Acting context moment) := by
  apply Act.within_ite (acting_pure _)
  apply asked_acting
  · exact fun _ => rfl
  · exact fun key player hplayer => (Option.some.inj hplayer).symm
  · intro reply
    split
    · exact acting_tellClaim _
    · exact acting_pure _

omit [SlotCodec] [Clock] in
/-- An @ only goes where a letter stays. -/
theorem stripMentionsFrom_ne_nil (inWord : Bool) {text : Str} (h : text ≠ []) : stripMentionsFrom inWord text ≠ [] := by
  induction text generalizing inWord with
  | nil => exact absurd rfl h
  | cons character text ih =>
    rw [stripMentionsFrom]
    split
    · rename_i hgoes
      apply ih
      rintro rfl
      simp at hgoes
    · exact List.cons_ne_nil _ _

/-- What is added was cleaned, and holds nothing forbidden. -/
theorem acting_addQuote (argument : Str) : (handleAddQuote context moment argument).Within (Acting context moment) := by
  apply Act.within_ite (acting_pure _)
  apply acting_bind (acting_price _)
  intro cost
  by_cases hargument : argument = []
  · simp only [hargument, if_true]
    exact acting_pure _
  rw [if_neg hargument]
  by_cases hbanned : context.config.quoteBanned.any (fun piece => containsIgnoreCase (stripMentions argument) piece) = true
  · simp only [hbanned, if_true]
    exact acting_pure _
  · have hclean : CleanQuote context.config.quoteBanned (stripMentions argument) :=
      ⟨stripMentionsFrom_ne_nil false hargument, stripMentionsFrom_quiet false argument, by simpa using hbanned⟩
    simp only [hbanned, Bool.false_eq_true, if_false]
    exact acting_answered (fun _ => hclean) fun _ => rfl

theorem acting_furniture (wanted : Str) (slot : Option ℤ) :
    (handleFurniture context moment wanted slot).Within (Acting context moment) := by
  apply Act.within_ite (acting_pure _)
  apply acting_bind (acting_price _)
  intro cost
  exact Act.within_ite (acting_pure _) (acting_asked (fun _ => trivial) fun _ => rfl)

theorem acting_take (argument : Str) : (handleTake context moment argument).Within (Acting context moment) := by
  apply Act.within_ite (acting_pure _)
  split
  · exact acting_asked (fun _ => trivial) fun _ => rfl
  · exact acting_asked (fun _ => trivial) fun _ => rfl
  · exact acting_pure _

theorem acting_store (argument : Str) : (handleStore context moment argument).Within (Acting context moment) := by
  apply Act.within_ite (acting_pure _)
  split
  · exact acting_asked (fun _ => trivial) fun _ => rfl
  · exact acting_pure _

theorem acting_deleteQuote (argument : Str) :
    (handleDeleteQuote context moment argument).Within (Acting context moment) := by
  rw [handleDeleteQuote]
  by_cases htrusted : trusted context = true
  · rw [if_neg (not_not.mpr htrusted)]
    apply Act.within_ite (acting_pure _)
    exact acting_bind (ask_acting_free htrusted rfl) fun _ => acting_pure _
  · rw [if_pos htrusted]
    exact acting_pure _

theorem acting_debug (argument : Str) : (handleDebug context moment argument).Within (Acting context moment) := by
  rw [handleDebug]
  by_cases howner : context.owner = true
  · rw [if_neg (not_not.mpr howner)]
    apply Act.within_ite
    · exact acting_bind acting_boundKey fun _ => acting_bind (acting_consult _) fun _ => acting_pure _
    · exact acting_answered (fun _ => howner) fun _ => rfl
  · rw [if_pos howner]
    exact acting_pure _

theorem acting_link (argument : Str) : (handleLink context moment argument).Within (Acting context moment) := by
  apply Act.within_ite (acting_pure _)
  split
  · exact acting_pure _
  · exact acting_bind (ask_acting_free ⟨rfl, rfl, rfl⟩ rfl) fun _ => acting_pure _

theorem acting_invitedBy (argument : Str) : (handleInvitedBy context moment argument).Within (Acting context moment) := by
  apply Act.within_ite (acting_pure _)
  apply Act.within_ite (acting_pure _)
  exact acting_answered (fun _ => trivial) fun _ => rfl

theorem acting_unblock (argument : Str) : (handleUnblock context moment argument).Within (Acting context moment) := by
  rw [handleUnblock]
  by_cases howner : context.owner = true
  · rw [if_neg (not_not.mpr howner)]
    apply Act.within_ite (acting_pure _)
    apply acting_bind (acting_consult _)
    intro names
    split
    · exact acting_pure _
    · apply acting_bind
      · exact fun desk => .of_same rfl rfl rfl fun hnot => by simp [hnot] at howner
      · exact fun _ => acting_pure _
  · rw [if_pos howner]
    exact acting_pure _

theorem acting_handler (command : Command) (argument : Str) :
    (command.handler context moment argument).Within (Acting context moment) := by
  cases command with
  | leaderboard => exact acting_bind (acting_consult _) fun _ => acting_pure _
  | emoji => exact Act.within_ite (acting_pure _) (acting_pure _)
  | profile => exact acting_showPlayer .profile argument
  | house => exact acting_showPlayer .house argument
  | addQuote => exact acting_addQuote argument
  | link => exact acting_link argument
  | quotes => exact Act.within_ite (acting_pure _) (acting_bind (acting_consult _) fun _ => acting_pure _)
  | deleteQuote => exact acting_deleteQuote argument
  | debug => exact acting_debug argument
  | take => exact acting_take argument
  | store => exact acting_store argument
  | unblock => exact acting_unblock argument
  | invitedBy => exact acting_invitedBy argument
  | help | buy | raid | give | throw | burn | home | move => exact acting_pure _

/-- A line that does one thing once its sender was seen. -/
theorem acting_seen {next : Act Desk (Option Answer)} (h : next.Within (Acting context moment)) :
    (rememberSender context moment >>= fun _ => next).Within (Acting context moment) :=
  acting_bind acting_courteous.remember fun _ => h

theorem acting_told {act : Act Desk Answer} (h : act.Within (Acting context moment)) :
    (act >>= fun answer => pure (some answer)).Within (Acting context moment) :=
  acting_bind h fun _ => acting_pure _

theorem acting_emojiErrand (verb : Verb) (carried : ParsedEmoji) (me : Bool) :
    (emojiErrand context moment verb carried me).Within (Acting context moment) := by
  apply Act.within_ite
  · exact Act.within_ite (acting_pure _) (acting_furniture _ _)
  · apply Act.within_ite (acting_pure _)
    apply Act.within_ite
    · exact Act.within_ite (acting_emojiBurn _ _) (Act.within_ite (acting_pure _) (acting_emojiBurn _ _))
    · exact acting_raid _ _ _ _

theorem acting_amountLine (verb : Verb) (transfer : ParsedAmount) :
    (amountLine context moment verb transfer).Within (Acting context moment) := by
  apply Act.within_ite (acting_pure _)
  apply Act.within_ite (acting_pure _)
  apply acting_seen
  apply Act.within_ite
  · exact Act.within_ite (acting_pure _) (acting_told (acting_burn _))
  · apply acting_bind (acting_courteous.namesMe _)
    intro me
    exact Act.within_ite (acting_pure _) (acting_told (acting_gift _))

theorem acting_moveLine (verb : Verb) (request : ParsedMove) :
    (moveLine context moment verb request).Within (Acting context moment) := by
  apply Act.within_ite (acting_pure _)
  apply Act.within_ite (acting_pure _)
  apply acting_seen
  apply Act.within_ite (acting_pure _)
  apply acting_bind (acting_courteous.namesMe _)
  intro me
  exact Act.within_ite (acting_pure _) (acting_told (acting_move _))

theorem acting_emojiLine (verb : Verb) (carried : ParsedEmoji) :
    (emojiLine context moment verb carried).Within (Acting context moment) := by
  apply Act.within_ite (acting_pure _)
  apply Act.within_ite (acting_pure _)
  apply acting_seen
  apply Act.within_ite (acting_pure _)
  apply Act.within_ite (acting_pure _)
  apply acting_bind (acting_courteous.namesMe _)
  intro me
  exact acting_told (acting_emojiErrand _ _ me)

theorem acting_raidLine (verb : Verb) (target : Str) :
    (raidLine context moment verb target).Within (Acting context moment) := by
  apply Act.within_ite (acting_pure _)
  apply Act.within_ite (acting_pure _)
  apply acting_seen
  apply acting_bind
  · exact Act.within_ite (acting_courteous.namesMe _) (acting_pure _)
  · intro me
    exact Act.within_ite (acting_pure _) (acting_told (acting_raid _ _ _ _))

theorem acting_carryOut (line : Verbed) : (carryOut context moment line).Within (Acting context moment) := by
  apply Act.within_ite
  · apply Act.within_ite (acting_pure _)
    exact Act.within_ite (acting_pure _) (acting_seen (acting_told acting_claim))
  split
  · exact acting_amountLine _ _
  split
  · exact acting_moveLine _ _
  split
  · exact acting_emojiLine _ _
  apply Act.within_ite (acting_raidLine _ _)
  apply Act.within_ite (acting_pure _)
  apply Act.within_ite (acting_pure _)
  split
  · exact acting_pure _
  · exact acting_seen (acting_told (acting_handler _ _))

theorem ask_bound (op : Op) (desk : Desk) : (ask moment op desk).2.bound = desk.bound := by
  rcases ask_cases moment op desk with hask | ⟨reply, files, -, hask⟩
  · rw [hask]
  · rw [hask]

/-- What is asked for as a player who is the one on the desk. -/
theorem ask_acting_as {op : Op} {player : Str} (hgranted : op.Granted context moment)
    (hactor : ∀ other, op.actor = some other → other = player) :
    (ask moment op).WithinFrom (fun desk => desk.bound = player) (Acting context moment) := by
  intro desk hbound
  apply ask_acting hgranted
  intro hseen other hother
  rwa [hactor other hother, ← hbound]

theorem payInvite_desk (seen : Str) (desk : Desk) :
    (payInvite moment seen desk).2 = (ask moment (.reward seen moment.samePerson) desk).2 := by
  rw [payInvite, Act.caught, Act.run_bind]
  split
  · rename_i reply desk' heq
    rw [heq]
    split <;> rfl
  · rename_i desk' heq
    rw [heq]

theorem showGuide_desk (seen : Str) (desk : Desk) :
    (showGuide moment seen desk).2 = (ask moment (.guide seen) desk).2 := by
  rw [showGuide, Act.caught, Act.run_bind]
  split
  · rename_i reply desk' heq
    rw [heq]
    split <;> rfl
  · rename_i desk' heq
    rw [heq]

/-- What follows the reply is done as whoever is on the desk. -/
theorem acting_afterReply (seen : Str) (answer : Answer) :
    (afterReply moment seen answer).WithinFrom (fun desk => desk.bound = seen) (Acting context moment) := by
  have := @acting_preorder context moment
  have hpay : (payInvite moment seen).WithinFrom (fun desk => desk.bound = seen) (Acting context moment) := by
    intro desk hbound
    rw [payInvite_desk]
    have hactor (other : Str) (hother : (Op.reward seen moment.samePerson).actor = some other) : other = seen :=
      (Option.some.inj hother).symm
    exact @ask_acting_as _ _ context moment (.reward seen moment.samePerson) seen trivial hactor desk hbound
  have hshow : (showGuide moment seen).WithinFrom (fun desk => desk.bound = seen) (Acting context moment) := by
    intro desk hbound
    rw [showGuide_desk]
    have hactor (other : Str) (hother : (Op.guide seen).actor = some other) : other = seen :=
      (Option.some.inj hother).symm
    exact @ask_acting_as _ _ context moment (.guide seen) seen trivial hactor desk hbound
  apply Act.withinFrom_bind (K := fun _ desk => desk.bound = seen) hpay
  · intro desk paid desk' hbound hpaid
    have hdesk : desk' = (ask moment (.reward seen moment.samePerson) desk).2 := by
      rw [← payInvite_desk, hpaid]
    rw [hdesk, ask_bound, hbound]
  · intro paid
    split
    · exact Act.withinFrom_of_within (acting_pure _) _
    · apply Act.withinFrom_bind (K := fun _ _ => True) hshow fun _ _ _ _ _ => trivial
      exact fun _ => Act.withinFrom_of_within (acting_pure _) _

theorem acting_commandDispatch (text : Str) : (commandDispatch context moment text).Within (Acting context moment) := by
  have := @acting_preorder context moment
  apply acting_bind (acting_courteous.dispatch text (acting_carryOut _))
  intro answer desk
  rw [Act.run_bind_some (run_boundKey desk)]
  cases answer with
  | none => exact acting_pure none desk
  | some answer =>
    dsimp only
    split
    · exact acting_pure _ desk
    · apply Act.withinFrom_bind (K := fun _ _ => True) (acting_afterReply desk.bound answer) (fun _ _ _ _ _ => trivial)
      · exact fun _ => Act.withinFrom_of_within (acting_pure _) _
      · rfl

/-- How a message moves what it was heard with. -/
theorem hear_acting (bot : Bot) (message : Message) :
    Acting message.context message.moment bot.desk (bot.hear message).2 :=
  acting_commandDispatch message.text bot.desk

/-- In every run, whatever is written and whatever fails: all that a message asks of the game it may ask, and asks as
the player its sender was seen as. -/
theorem nobody_acts_for_another (bot : Bot) (events : List Event) (message : Message) :
    ∀ call ∈ (bot.run events).callsOn (.message message),
      call.Permitted message.context message.moment ((bot.run events).callsOn (.message message)) := by
  obtain ⟨since, hcalls, hacting⟩ := (hear_acting (bot.run events) message).calls
  have hsince : (bot.run events).callsOn (.message message) = since := hcalls
  obtain ⟨-, hpermitted⟩ := hacting (.inl rfl)
  rw [hcalls] at hpermitted
  rwa [hsince]

/-- Whatever is heard, its quotes are held to these settings. -/
def Event.Under (banned : List Str) : Event → Prop
  | .message heard => heard.context.config.quoteBanned = banned
  | _ => True

/-- What is heard from nobody who may delete a quote or let anybody back in. -/
def Event.Untrusted : Event → Prop
  | .message heard => trusted heard.context = false
  | _ => True

/-- No quote is lost, and nobody gets back in, nor any sooner: who is kept out until some time still is, unless
the sentinel itself has put him out anew. -/
structure Unspoiled (banned : List Str) (events : List Event) (before after : Bot) : Prop where
  quotes : ∃ added, after.files.quotes = before.files.quotes ++ added ∧ ∀ quote ∈ added, CleanQuote banned quote
  blocked : ∀ player, after.sentinel.blocked.find player = before.sentinel.blocked.find player ∨
    ∃ until', Event.block player until' ∈ events ∧ after.sentinel.blocked.find player = some until'
  keptOut : ∀ player, (∀ until', Event.block player until' ∉ events) →
    after.sentinel.blockedUntil player = before.sentinel.blockedUntil player

omit [SlotCodec] [Clock] in
theorem blockedUntil_eq {before after : Sentinel} {player : Str} (h : after.blocked.find player = before.blocked.find player) :
    after.blockedUntil player = before.blockedUntil player := by
  ext now
  rw [Sentinel.blockedUntil, Sentinel.blockedUntil, h]

omit [SlotCodec] [Clock] in
theorem Unspoiled.of_blocked {banned : List Str} {events : List Event} {before after : Bot}
    (hquotes : ∃ added, after.files.quotes = before.files.quotes ++ added ∧ ∀ quote ∈ added, CleanQuote banned quote)
    (hblocked : ∀ player, after.sentinel.blocked.find player = before.sentinel.blocked.find player ∨
      ∃ until', Event.block player until' ∈ events ∧ after.sentinel.blocked.find player = some until') :
    Unspoiled banned events before after where
  quotes := hquotes
  blocked := hblocked
  keptOut player hplayer := by
    rcases hblocked player with hsame | ⟨until', hagain, -⟩
    · exact blockedUntil_eq hsame
    · exact absurd hagain (hplayer until')

omit [SlotCodec] [Clock] in
theorem Unspoiled.of_same {banned : List Str} {events : List Event} {before after : Bot}
    (hquotes : after.files.quotes = before.files.quotes) (hblocked : after.sentinel = before.sentinel) :
    Unspoiled banned events before after :=
  .of_blocked ⟨[], by simp [hquotes], by simp⟩ fun player => by simp [hblocked]

omit [SlotCodec] [Clock] in
theorem Unspoiled.trans {banned : List Str} {events later : List Event} {first second third : Bot}
    (h : Unspoiled banned events first second) (h' : Unspoiled banned later second third) :
    Unspoiled banned (events ++ later) first third := by
  obtain ⟨added, hquotes, hclean⟩ := h.quotes
  obtain ⟨more, hquotes', hclean'⟩ := h'.quotes
  refine .of_blocked ⟨added ++ more, ?_, List.forall_mem_append.mpr ⟨hclean, hclean'⟩⟩ fun player => ?_
  · rw [hquotes', hquotes, List.append_assoc]
  · rcases h'.blocked player with hsame | ⟨until', hagain, hfind⟩
    · rw [hsame]
      rcases h.blocked player with hfirst | ⟨until', hagain, hfind⟩
      · exact .inl hfirst
      · exact .inr ⟨until', List.mem_append_left later hagain, hfind⟩
    · exact .inr ⟨until', List.mem_append_right events hagain, hfind⟩

theorem files_after_quotes {files : Files} {op : Op} (hadd : op.actor = none)
    (hdelete : ∀ selector, op ≠ .quoteDelete selector) : (files.after op).quotes = files.quotes := by
  cases hstep : step files op with
  | error failure => rw [Files.after, hstep]
  | ok result =>
    rw [Files.after_eq hstep]
    rcases step_quotes hstep with hsame | ⟨username, quote, cost, rfl, -⟩ | ⟨selector, rfl, -⟩
    · exact hsame
    · cases hadd
    · exact absurd rfl (hdelete selector)

theorem after_quotes (bot : Bot) {event : Event} (hevent : ∀ message, event ≠ .message message) :
    (bot.after event).files.quotes = bot.files.quotes := by
  cases event with
  | message message => exact absurd rfl (hevent message)
  | block => rfl
  | raidDue | handOut | sortOut => exact files_after_quotes rfl fun _ => by simp

theorem event_unspoiled {banned : List Str} (bot : Bot) {event : Event} (hunder : event.Under banned)
    (huntrusted : event.Untrusted) : Unspoiled banned [event] bot (bot.after event) := by
  cases event with
  | message message =>
    have hacting := hear_acting bot message
    have howner : message.context.owner = false := by
      have : trusted message.context = false := huntrusted
      simp_all [trusted]
    refine .of_blocked ?_ fun player => .inl ?_
    · rw [← hunder]
      exact hacting.quotes huntrusted
    · have hsame : (bot.hear message).2.sentinel.blocked = bot.sentinel.blocked := hacting.blocked howner
      rw [Bot.after, hsame]
  | block player until' =>
    refine .of_blocked ⟨[], by simp [Bot.after], by simp⟩ fun other => ?_
    rw [Bot.after, Sentinel.block, Lib.OrderedMap.find_set]
    split
    case isTrue hother => exact .inr ⟨until', by simp [hother], rfl⟩
    case isFalse => exact .inl rfl
  | raidDue | handOut | sortOut => exact .of_same (after_quotes bot fun _ => by simp) rfl

theorem event_clean {banned : List Str} (bot : Bot) {event : Event} (hunder : event.Under banned) :
    ∀ quote ∈ (bot.after event).files.quotes, quote ∈ bot.files.quotes ∨ CleanQuote banned quote := by
  cases event with
  | message message =>
    have hunder : message.context.config.quoteBanned = banned := hunder
    rw [← hunder]
    exact (hear_acting bot message).clean
  | block | raidDue | handOut | sortOut =>
    rw [after_quotes bot fun _ => by simp]
    exact fun quote hquote => .inl hquote

/-- In every run: no quote that tags somebody or is forbidden gets in, and as long as no owner and no admin
writes no quote goes, and nobody who is kept out gets back in before his time, unless the sentinel itself gave
him another. -/
theorem only_the_trusted {banned : List Str} (bot : Bot) {events : List Event} (hunder : ∀ event ∈ events, event.Under banned) :
    (∀ quote ∈ (bot.run events).files.quotes, quote ∈ bot.files.quotes ∨ CleanQuote banned quote) ∧
      ((∀ event ∈ events, event.Untrusted) → Unspoiled banned events bot (bot.run events)) := by
  induction events generalizing bot with
  | nil => exact ⟨fun quote hquote => .inl hquote, fun _ => .of_same rfl rfl⟩
  | cons event events ih =>
    obtain ⟨hevent, hevents⟩ := List.forall_mem_cons.mp hunder
    obtain ⟨hclean, hunspoiled⟩ := ih (bot.after event) hevents
    constructor
    · intro quote hquote
      rcases hclean quote hquote with hbefore | hnew
      · exact event_clean bot hevent quote hbefore
      · exact .inr hnew
    · intro huntrusted
      obtain ⟨hfirst, hrest⟩ := List.forall_mem_cons.mp huntrusted
      exact (event_unspoiled bot hevent hfirst).trans (hunspoiled hrest)

theorem run_quotes_grow (bot : Bot) {events : List Event} (h : ∀ event ∈ events, event.Untrusted) :
    bot.files.quotes <+: (bot.run events).files.quotes := by
  induction events generalizing bot with
  | nil => exact List.prefix_refl _
  | cons event events ih =>
    obtain ⟨hfirst, hrest⟩ := List.forall_mem_cons.mp h
    have hgrows : bot.files.quotes <+: (bot.after event).files.quotes := by
      cases event with
      | message message =>
        obtain ⟨added, hadded, -⟩ := (hear_acting bot message).quotes hfirst
        exact ⟨added, hadded.symm⟩
      | block | raidDue | handOut | sortOut => rw [after_quotes bot fun _ => by simp]
    exact hgrows.trans (ih (bot.after event) hrest)

/-- A number read on a page keeps deleting the quote it was shown with, whatever happens until somebody trusted writes. -/
theorem number_read_holds {bot : Bot} {events : List Event} (huntrusted : ∀ event ∈ events, event.Untrusted)
    {requestedPage : Int32} {index : ℕ} {quote : Str}
    (hitem : (quotePageLoad bot.files requestedPage).items[index]? = some quote) :
    let number := (quotePageLoad bot.files requestedPage).firstNumber + index
    let later := (bot.run events).files
    later.quotes[number - 1]? = some quote ∧
      step later (.quoteDelete (decimal (number : ℕ))) =
        .ok (.quoteDelete (some quote), ⟨forgetAuthor later.state quote, later.quotes.eraseIdx (number - 1)⟩) := by
  intro number later
  obtain ⟨position, hnumber, hsmall, hquote⟩ := quotePageLoad_item hitem
  have hposition : number = position + 1 := hnumber
  obtain ⟨added, hadded⟩ := run_quotes_grow bot huntrusted
  have hlater : later.quotes[position]? = some quote := by
    have hlt := (List.getElem?_eq_some_iff.mp hquote).1
    change (bot.run events).files.quotes[position]? = some quote
    rw [← hadded, List.getElem?_append_left hlt, hquote]
  have hshown : later.quotes.getD position [] = quote := by rw [List.getD_eq_getElem?_getD, hlater, Option.getD_some]
  rw [hposition, Nat.add_sub_cancel, step, quoteDelete, selectedQuote_decimal hlater hsmall]
  dsimp only
  rw [hshown]
  exact ⟨hlater, rfl⟩

end

/-- Ada, to whom a quote costs nothing, writes something at that time. -/
def sentByAda (now : ℤ) (text : Str) : Message :=
  ⟨{ config := { quoteCost := 0 }, userId := 1, username := utf8 "ada" }, { now := now }, text⟩

/-- The third of three quotes, once somebody has written a fourth. -/
theorem number_read_holds_third :
    (@step _ utc (@Bot.run _ utc { files := @Files.run _ utc {} numberedQuotes }
        [.message (sentByAda 5 (utf8 "/addquote ciao"))]).files
      (.quoteDelete (utf8 "3"))).toOption.map Prod.fst = some (.quoteDelete (some (utf8 "1"))) := by
  have hitem : (quotePageLoad (@Files.run _ utc {} numberedQuotes) 1).items[2]? = some (utf8 "1") := by decide +kernel
  have hdeleted := (@number_read_holds _ utc { files := @Files.run _ utc {} numberedQuotes }
    [.message (sentByAda 5 (utf8 "/addquote ciao"))]
    (by simp [Event.Untrusted, trusted, sentByAda]) 1 2 (utf8 "1") hitem).2
  have hnumber : decimal ((quotePageLoad (@Files.run _ utc {} numberedQuotes) 1).firstNumber + 2 : ℕ) = utf8 "3" := by
    decide +kernel
  rw [hnumber] at hdeleted
  rw [hdeleted]
  rfl

/-- A quote is put down to who wrote it. -/
theorem nobody_acts_for_another_ada :
    ∃ call ∈ @Bot.callsOn _ utc {} (.message (sentByAda 5 (utf8 "/addquote ciao"))),
      call.op.actor = some (utf8 "tg:1") ∧
        call.Permitted (sentByAda 5 (utf8 "/addquote ciao")).context { now := 5 }
          (@Bot.callsOn _ utc {} (.message (sentByAda 5 (utf8 "/addquote ciao")))) := by
  have hasked : ∃ call ∈ @Bot.callsOn _ utc {} (.message (sentByAda 5 (utf8 "/addquote ciao"))),
      call.op.actor = some (utf8 "tg:1") := by decide +kernel
  obtain ⟨call, hcall, hactor⟩ := hasked
  exact ⟨call, hcall, hactor, @nobody_acts_for_another _ utc {} [] (sentByAda 5 (utf8 "/addquote ciao")) call hcall⟩

/-- A quote from somebody who is no admin, one he would delete and somebody kept out he would let back in. -/
def untrustedEvents : List Event :=
  [.message (sentByAda 5 (utf8 "/addquote ciao @bob")), .block (utf8 "bob") 900,
    .message (sentByAda 6 (utf8 "/delquote 1")), .message (sentByAda 7 (utf8 "/unblock bob"))]

/-- The quote stays, and bob is kept out as long as he was. -/
theorem only_the_trusted_bob :
    Unspoiled [] untrustedEvents {} (@Bot.run _ utc {} untrustedEvents) ∧
      (@Bot.run _ utc {} untrustedEvents).files.quotes.length = 1 ∧
      (@Bot.run _ utc {} untrustedEvents).sentinel.blockedUntil (utf8 "bob") 8 = 900 :=
  ⟨(@only_the_trusted _ utc [] {} _ (by simp [Event.Under, untrustedEvents, sentByAda])).2
      (by simp [Event.Untrusted, trusted, untrustedEvents, sentByAda]),
    by decide +kernel, by decide +kernel⟩

end NorelecBot
