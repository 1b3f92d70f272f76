import NorelecBot.Dispatch

/-! # Recognising a command, and running it

What is told from the text alone, and what a message is answered with, go by the
same grammars. They part where a command is rewritten into a line on the sender's
own name before the grammars see it, and that line is none of theirs.
-/

namespace NorelecBot
open Lib

/-- A line that one of the five grammars reads. -/
def aimed (message : Str) : Bool :=
  message = conquisterTrigger || raidTarget message ≠ [] || (amountTarget message).isSome ||
    (emojiTarget message).isSome || (slotMove message).isSome

/-- A line with a command that has a handler. -/
def handled (message : Str) : Bool := message ≠ [] && (findCommand (parseCommand message).name).isSome

def Verbed.answered (line : Verbed) : Bool := aimed line.message || line.verb ≠ .none || handled line.message

/-- A text that is an old "We name ..." line. -/
def isOldLine (text : Str) : Bool :=
  let old := expandAdventure (Text.trim text)
  raidTrigger.isPrefixOf old && old ≠ conquisterTrigger && aimed old

/-- Where a command is rewritten into a line on the sender's own name, a grammar reads that line. -/
def ownLineRead (context : CommandContext) (text : Str) : Bool :=
  let message := expandAdventure (Text.trim text)
  expandBuy context message = message || aimed (expandBuy context message)

theorem commandIsForBot_eq (text : Str) :
    commandIsForBot text = (aimed (expandAdventure (Text.trim text)) || handled (expandAdventure (Text.trim text))) :=
  rfl

theorem parseCommand_raidTrigger (rest : Str) : (parseCommand (raidTrigger ++ rest)).name = utf8 "we" := by
  rfl

theorem handled_raidTrigger (rest : Str) : handled (raidTrigger ++ rest) = false := by
  rw [handled, parseCommand_raidTrigger, show findCommand (utf8 "we") = none by decide]
  simp

theorem expandVerb_raidTrigger (rest : Str) : expandVerb (raidTrigger ++ rest) = ⟨.none, raidTrigger ++ rest⟩ := by
  rw [expandVerb, parseCommand_raidTrigger, show verbOf (utf8 "we") = .none by decide]
  simp

/-- A line that begins as the old ones do names none of the commands. -/
theorem name_of_isPrefixOf {message : Str} (h : raidTrigger.isPrefixOf message = true) :
    (parseCommand message).name = utf8 "we" := by
  obtain ⟨rest, rfl⟩ := List.isPrefixOf_iff_prefix.mp h
  exact parseCommand_raidTrigger rest

theorem handled_of_name {message : Str} (command : Command) (h : (parseCommand message).name = command.name) :
    handled message = true := by
  have hfound : (findCommand command.name).isSome = true := by cases command <;> decide
  have hne : message ≠ [] := by
    intro hnil
    rw [hnil] at h
    cases command <;> revert h <;> decide
  rw [handled, h, hfound]
  simp [hne]

/-- The three commands that are rewritten are commands, and what they become is a "We " line. -/
theorem expandBuy_ne {context : CommandContext} {message : Str} (h : expandBuy context message ≠ message) :
    handled message = true ∧ ∃ rest, expandBuy context message = raidTrigger ++ rest := by
  rw [expandBuy] at h ⊢
  by_cases hname : context.username = []
  · rw [if_pos hname] at h
    exact absurd rfl h
  rw [if_neg hname] at h ⊢
  by_cases hback : (parseCommand message).name = backCommand
  · rw [if_pos hback]
    exact ⟨handled_of_name .home hback, _, rfl⟩
  rw [if_neg hback] at h ⊢
  by_cases hmove : (parseCommand message).name = moveCommand ∧ twoSlots (parseCommand message).argument
  · rw [if_pos hmove, List.append_assoc, List.append_assoc]
    exact ⟨handled_of_name .move hmove.1, _, rfl⟩
  rw [if_neg hmove] at h ⊢
  by_cases hbuy : (parseCommand message).name ≠ buyCommand ∨ (parseCommand message).argument = []
  · rw [if_pos hbuy] at h
    exact absurd rfl h
  · rw [if_neg hbuy, List.append_assoc, List.append_assoc]
    rw [not_or, not_not] at hbuy
    exact ⟨handled_of_name .buy hbuy.1, _, rfl⟩

theorem expandVerb_of_none {message : Str} (h : (expandVerb message).verb = .none) : expandVerb message = ⟨.none, message⟩ := by
  rw [expandVerb] at h ⊢
  split
  · rfl
  · rename_i hverb
    rw [if_neg hverb] at h
    rw [not_or] at hverb
    split at h
    · exact absurd h hverb.1
    · exact absurd h hverb.1

theorem handled_of_verbOf {message : Str} (h : verbOf (parseCommand message).name ≠ .none) : handled message = true := by
  rw [verbOf] at h
  split at h
  · exact handled_of_name _ (by assumption)
  split at h
  · exact handled_of_name _ (by assumption)
  split at h
  · exact handled_of_name _ (by assumption)
  split at h
  · exact handled_of_name _ (by assumption)
  · exact absurd rfl h

theorem handled_of_verb {message : Str} (h : (expandVerb message).verb ≠ .none) : handled message = true := by
  apply handled_of_verbOf
  intro hnone
  apply h
  rw [expandVerb, hnone]
  simp

/-- Left as it was written, a text is recognised when something is done about its line. -/
theorem answered_expandVerb (message : Str) : (expandVerb message).answered = (aimed message || handled message) := by
  by_cases hverb : (expandVerb message).verb = .none
  · rw [expandVerb_of_none hverb, Verbed.answered]
    simp
  · rw [Verbed.answered, handled_of_verb hverb]
    simp [hverb]

/-- A text that is an old line is one that is recognised, and stays as it was written. -/
theorem isOldLine_aimed {text : Str} (h : isOldLine text = true) : aimed (expandAdventure (Text.trim text)) = true := by
  rw [isOldLine] at h
  simp only [Bool.and_eq_true] at h
  exact h.2

theorem not_isOldLine_of_handled {text : Str} (h : handled (expandAdventure (Text.trim text)) = true) :
    isOldLine text = false := by
  by_contra hold
  rw [Bool.not_eq_false, isOldLine] at hold
  simp only [Bool.and_eq_true] at hold
  obtain ⟨rest, hrest⟩ := List.isPrefixOf_iff_prefix.mp hold.1.1
  rw [← hrest, handled_raidTrigger] at h
  cases h

/-- What is recognised and what is answered are told apart by the line on the sender's own name alone. -/
theorem recognised_iff (context : CommandContext) (text : Str) :
    (commandIsForBot text = (isOldLine text || (expanded context text).answered)) ↔ ownLineRead context text = true := by
  set message := expandAdventure (Text.trim text) with hmessage
  have hold : isOldLine text = true → aimed message = true := isOldLine_aimed
  by_cases hsame : expandBuy context message = message
  · have hread : ownLineRead context text = true := by
      rw [ownLineRead, ← hmessage, hsame]
      simp
    have hanswered : (expanded context text).answered = (aimed message || handled message) := by
      rw [expanded, ← hmessage, hsame, answered_expandVerb]
    rw [hread, hanswered, commandIsForBot_eq, ← hmessage]
    cases hcase : isOldLine text with
    | false => simp
    | true => simp [hold hcase]
  · obtain ⟨hhandled, rest, hrest⟩ := expandBuy_ne hsame
    have hanswered : (expanded context text).answered = aimed (expandBuy context message) := by
      rw [expanded, ← hmessage, hrest, expandVerb_raidTrigger, Verbed.answered, handled_raidTrigger]
      simp
    have hread : ownLineRead context text = aimed (expandBuy context message) := by
      rw [ownLineRead, ← hmessage]
      simp [hsame]
    rw [hread, hanswered, commandIsForBot_eq, ← hmessage, hhandled, not_isOldLine_of_handled hhandled]
    simp

section
variable [SlotCodec] [Clock] {context : CommandContext} {moment : Moment}

/-- Whoever is not blocked is let through, seen if the sentinel had a say. -/
theorem turnAway_free {desk : Desk} (text : Str) (hname : context.username ≠ [])
    (hopen : moment.fails desk.opened = false)
    (hfree : desk.sentinel.blockedUntil (senderKey context desk.files.state) moment.now = 0) :
    turnAway context moment text desk =
      (some none, if guarded context text then seenDesk context moment desk else desk) := by
  rw [turnAway]
  by_cases hguarded : guarded context text = true
  · rw [if_pos hguarded, if_pos hguarded, Act.run_bind_some (rememberSender_ok hname hopen)]
    have hkept : (seenDesk context moment desk).sentinel.blockedUntil (seenDesk context moment desk).bound moment.now = 0 :=
      hfree
    rw [Act.run_bind_some (run_boundKey _), Act.run_bind_some (run_askSentinel _ _), hkept]
    rfl
  · rw [if_neg hguarded, if_neg hguarded]
    rfl

theorem oldLineInstead_pure {text : Str} (h : isOldLine text = false) :
    oldLineInstead context moment text = pure none := by
  rw [oldLineInstead]
  rw [isOldLine] at h
  generalize expandAdventure (Text.trim text) = old at h ⊢
  by_cases hold : (!raidTrigger.isPrefixOf old || old = conquisterTrigger) = true
  · rw [if_pos hold]
  · rw [if_neg hold]
    have haimed : aimed old = false := by simp_all
    simp only [aimed, Bool.or_eq_false_iff] at haimed
    obtain ⟨⟨⟨⟨-, htarget⟩, hamount⟩, hemoji⟩, hmove⟩ := haimed
    rw [Option.isSome_eq_false_iff, Option.isNone_iff_eq_none] at hamount hemoji hmove
    rw [hamount, hmove, hemoji]
    simp_all

theorem oldLineInstead_yields {text : Str} (h : isOldLine text = true) :
    (oldLineInstead context moment text).Yields fun line => line.isSome = true := by
  rw [oldLineInstead]
  rw [isOldLine] at h
  generalize expandAdventure (Text.trim text) = old at h ⊢
  have hold : ¬ (!raidTrigger.isPrefixOf old || old = conquisterTrigger) = true := by simp_all
  rw [if_neg hold]
  split
  · exact Act.yields_pure rfl
  split
  · exact Act.yields_pure rfl
  split
  · split
    · exact Act.yields_pure rfl
    · apply Act.yields_bind
      intro _
      apply Act.yields_bind
      intro me
      split
      · exact Act.yields_pure rfl
      · exact Act.yields_pure rfl
  split
  · simp_all [aimed]
  · apply Act.yields_bind
    intro _
    apply Act.yields_bind
    intro me
    exact Act.yields_pure rfl

omit [SlotCodec] [Clock] in
theorem yields_answer (act : Act Desk Answer) :
    (act >>= fun answer => pure (some answer)).Yields fun reply => reply.isSome = true :=
  Act.yields_bind fun _ => Act.yields_pure rfl

theorem enterLine_yields (h : context.claimsAllowed = true) (verb : Verb) :
    (enterLine context moment verb).Yields fun reply => reply.isSome = true := by
  rw [enterLine, if_neg (not_not_intro h)]
  split
  · exact Act.yields_pure rfl
  · exact Act.yields_bind fun _ => yields_answer _

theorem amountLine_yields (h : context.claimsAllowed = true) (verb : Verb) (transfer : ParsedAmount) :
    (amountLine context moment verb transfer).Yields fun reply => reply.isSome = true := by
  rw [amountLine, if_neg (not_not_intro h)]
  split
  · exact Act.yields_pure rfl
  apply Act.yields_bind
  intro _
  split
  · split
    · exact Act.yields_pure rfl
    · exact yields_answer _
  · apply Act.yields_bind
    intro me
    split
    · exact Act.yields_pure rfl
    · exact yields_answer _

theorem moveLine_yields (h : context.claimsAllowed = true) (verb : Verb) (request : ParsedMove) :
    (moveLine context moment verb request).Yields fun reply => reply.isSome = true := by
  rw [moveLine, if_neg (not_not_intro h)]
  split
  · exact Act.yields_pure rfl
  apply Act.yields_bind
  intro _
  split
  · exact Act.yields_pure rfl
  apply Act.yields_bind
  intro me
  split
  · exact Act.yields_pure rfl
  · exact yields_answer _

theorem emojiLine_yields (h : context.claimsAllowed = true) (verb : Verb) (carried : ParsedEmoji) :
    (emojiLine context moment verb carried).Yields fun reply => reply.isSome = true := by
  rw [emojiLine, if_neg (not_not_intro h)]
  split
  · exact Act.yields_pure rfl
  apply Act.yields_bind
  intro _
  split
  · exact Act.yields_pure rfl
  split
  · exact Act.yields_pure rfl
  · exact Act.yields_bind fun me => yields_answer _

theorem raidLine_yields (h : context.claimsAllowed = true) (verb : Verb) (target : Str) :
    (raidLine context moment verb target).Yields fun reply => reply.isSome = true := by
  rw [raidLine, if_neg (not_not_intro h)]
  split
  · exact Act.yields_pure rfl
  apply Act.yields_bind
  intro _
  apply Act.yields_bind
  intro me
  split
  · exact Act.yields_pure rfl
  · exact yields_answer _

theorem carryOut_yields {line : Verbed} (hallowed : context.claimsAllowed = true) (h : line.answered = true) :
    (carryOut context moment line).Yields fun reply => reply.isSome = true := by
  rw [carryOut]
  split
  · exact enterLine_yields hallowed _
  split
  · exact amountLine_yields hallowed _ _
  split
  · exact moveLine_yields hallowed _ _
  split
  · exact emojiLine_yields hallowed _ _
  split
  · exact raidLine_yields hallowed _ _
  split
  · exact Act.yields_pure rfl
  split
  · simp_all [Verbed.answered, aimed, handled]
  split
  · simp_all [Verbed.answered, aimed, handled]
  · exact Act.yields_bind fun _ => yields_answer _

theorem carryOut_pure {line : Verbed} (h : line.answered = false) : carryOut context moment line = pure none := by
  simp only [Verbed.answered, aimed, handled, Bool.or_eq_false_iff] at h
  obtain ⟨⟨⟨⟨⟨⟨hplace, htarget⟩, hamount⟩, hemoji⟩, hmove⟩, hverb⟩, hcommand⟩ := h
  rw [Option.isSome_eq_false_iff, Option.isNone_iff_eq_none] at hamount hemoji hmove
  rw [carryOut, if_neg (of_decide_eq_false hplace), hamount, hmove, hemoji]
  dsimp only
  rw [if_neg (of_decide_eq_false htarget), if_neg (of_decide_eq_false hverb)]
  split
  · rfl
  · rename_i hne
    simp only [Bool.and_eq_false_imp, decide_eq_true_eq] at hcommand
    have hnone := hcommand hne
    rw [Option.isSome_eq_false_iff, Option.isNone_iff_eq_none] at hnone
    rw [hnone]

/-- A message that is not turned away gets a reply when its text is an old line or its line is answered. -/
theorem dispatch_isSome {desk : Desk} (text : Str) (hname : context.username ≠ [])
    (hallowed : context.claimsAllowed = true) (hopen : moment.fails desk.opened = false)
    (hfree : desk.sentinel.blockedUntil (senderKey context desk.files.state) moment.now = 0) :
    ∃ reply, (dispatch context moment text desk).1 = some reply ∧
      reply.isSome = (isOldLine text || (expanded context text).answered) := by
  refine ⟨_, rfl, ?_⟩
  rw [respond, Act.run_bind_some (turnAway_free text hname hopen hfree)]
  generalize (if guarded context text then seenDesk context moment desk else desk) = desk'
  dsimp only
  cases hold : isOldLine text with
  | true =>
    rw [Act.run_bind]
    rcases hline : oldLineInstead context moment text desk' with ⟨_ | line, desk''⟩
    · rfl
    · have hsome := oldLineInstead_yields hold desk' line (by rw [hline])
      obtain ⟨line, rfl⟩ := Option.isSome_iff_exists.mp hsome
      simp [hallowed, Act.run_pure]
  | false =>
    rw [oldLineInstead_pure hold, Act.run_bind_some (Act.run_pure _ _)]
    dsimp only
    cases hanswered : (expanded context text).answered with
    | true =>
      cases hreply : (carryOut context moment (expanded context text) desk').1 with
      | none => rfl
      | some reply => exact carryOut_yields hallowed hanswered desk' reply hreply
    | false =>
      rw [carryOut_pure hanswered]
      rfl

theorem afterReply_some (seen : Str) (answer : Answer) (desk : Desk) :
    ∃ spoken desk', afterReply moment seen answer desk = (some spoken, desk') := by
  obtain ⟨paid, desk', hpaid⟩ : ∃ paid desk', payInvite moment seen desk = (some paid, desk') :=
    Act.run_caught _ _ _
  rw [afterReply, Act.run_bind_some hpaid]
  cases paid with
  | none => exact ⟨_, _, rfl⟩
  | some reward =>
    obtain ⟨guide, desk'', hguide⟩ : ∃ guide desk'', showGuide moment seen desk' = (some guide, desk'') :=
      Act.run_caught _ _ _
    dsimp only
    rw [Act.run_bind_some hguide]
    exact ⟨_, _, rfl⟩

/-- What is told after a reply is told along with it. -/
theorem hear_isSome (bot : Bot) (message : Message) {reply : Option Answer} {desk : Desk}
    (h : dispatch message.context message.moment message.text bot.desk = (some reply, desk)) :
    (bot.hear message).1.isSome = reply.isSome := by
  rw [Bot.hear, commandDispatch, Act.run_bind_some h, Act.run_bind_some (run_boundKey _)]
  cases reply with
  | none => rfl
  | some answer =>
    dsimp only
    split
    · rfl
    · obtain ⟨spoken, desk', hspoken⟩ := afterReply_some desk.bound answer desk
      rw [Act.run_bind_some hspoken]
      rfl

theorem hear_silent (bot : Bot) (message : Message)
    (h : dispatch message.context message.moment message.text bot.desk = (some none, bot.desk)) :
    bot.hear message = (none, bot.desk) := by
  rw [Bot.hear, commandDispatch, Act.run_bind_some h, Act.run_bind_some (run_boundKey _)]
  rfl

/-- What the text says of a message and what comes of it agree, as long as a line on the sender's own
name, where his command stands for one, is read. -/
theorem recognised_when_answered (bot : Bot) (message : Message) (hname : message.context.username ≠ [])
    (hallowed : message.context.claimsAllowed = true)
    (hfree : bot.sentinel.blockedUntil (senderKey message.context bot.files.state) message.moment.now = 0)
    (hopen : ∀ turn, message.moment.fails turn = false) :
    ((commandIsForBot message.text = true ↔ (bot.hear message).1.isSome = true) ∧
      (commandIsForBot message.text = false → bot.after (.message message) = bot)) ↔
    ownLineRead message.context message.text = true := by
  have hfree' : bot.desk.sentinel.blockedUntil (senderKey message.context bot.desk.files.state) message.moment.now = 0 :=
    hfree
  have hopen' : message.moment.fails bot.desk.opened = false := hopen 0
  obtain ⟨reply, hreply, hsome⟩ := dispatch_isSome message.text hname hallowed hopen' hfree'
  rw [← recognised_iff, hear_isSome bot message (Prod.ext hreply rfl), hsome, ← Bool.eq_iff_iff]
  constructor
  · intro h
    exact h.1
  · intro h
    refine ⟨h, ?_⟩
    intro hnot
    have hquiet := h.symm.trans hnot
    rw [Bool.or_eq_false_iff] at hquiet
    have hguarded : guarded message.context message.text = false := by
      rw [guarded, hnot]
      simp
    have hdispatch : dispatch message.context message.moment message.text bot.desk = (some none, bot.desk) := by
      rw [dispatch, Act.caught, respond, Act.run_bind_some (turnAway_free message.text hname hopen' hfree'), hguarded,
        oldLineInstead_pure hquiet.1, carryOut_pure hquiet.2]
      rfl
    rw [Bot.after, hear_silent bot message hdispatch]
    rfl

end

/-- Somebody on IRC, at noon, with nothing wrong with the files. -/
def adaWrites (text : String) : Message where
  context := { username := utf8 "ada" }
  moment := { now := 43200 }
  text := utf8 text

theorem recognised_when_answered_pizza :
    (commandIsForBot (adaWrites "/buy 🍕").text = true ↔ (@Bot.hear _ utc {} (adaWrites "/buy 🍕")).1.isSome = true) ∧
      (commandIsForBot (adaWrites "/buy 🍕").text = false → @Bot.after _ utc {} (.message (adaWrites "/buy 🍕")) = {}) :=
  (@recognised_when_answered _ utc {} (adaWrites "/buy 🍕") (by decide) rfl rfl (fun _ => rfl)).mpr (by decide +kernel)

/-- "/buy" with something that is neither palle, nor slots, nor an emoji is a command nobody answers. -/
theorem buy_of_a_word_is_ignored :
    (adaWrites "/buy ciao").context.username ≠ [] ∧ (adaWrites "/buy ciao").context.claimsAllowed = true ∧
      (∀ turn, (adaWrites "/buy ciao").moment.fails turn = false) ∧
      Sentinel.blockedUntil {} (senderKey (adaWrites "/buy ciao").context {}) 43200 = 0 ∧
      ¬ (commandIsForBot (adaWrites "/buy ciao").text = true ↔
        (@Bot.hear _ utc {} (adaWrites "/buy ciao")).1.isSome = true) := by
  refine ⟨by decide, rfl, fun _ => rfl, rfl, ?_⟩
  have hrecognised : commandIsForBot (adaWrites "/buy ciao").text = true := by decide +kernel
  have hsilent : (@Bot.hear _ utc {} (adaWrites "/buy ciao")).1.isSome = false := by decide +kernel
  simp [hrecognised, hsilent]

end NorelecBot
