import NorelecBot.Recognised
import NorelecBot.Routines
import NorelecBot.IdentityPassages

/-! # A blocked player

Whoever the sentinel keeps out is seen, told so now and then, and gets nothing
done. Two things slip by the guard: he is welcomed as he is seen, and a message
that is answered is followed by what follows any reply. One command, /unblock, is
answered to anybody.
-/

namespace NorelecBot
open Lib

/-- A message of a player who is kept out when it comes, under a public name, and who is no owner. -/
structure KeptOut (bot : Bot) (message : Message) : Prop where
  named : message.context.username ≠ []
  notOwner : message.context.owner = false
  blocked : 0 < bot.sentinel.blockedUntil (senderKey message.context bot.files.state) message.moment.now

def askedUnblock (context : CommandContext) (text : Str) : Bool :=
  (parseCommand (expanded context text).message).name = Command.unblock.name

theorem begins_of_aimed {message : Str} (h : aimed message = true) : raidTrigger.isPrefixOf message = true := by
  by_contra hnot
  have hrest : afterRaidTrigger message = none := by rw [afterRaidTrigger, if_neg hnot]
  have hcut : targetAndRest message = none := by rw [targetAndRest, hrest]; rfl
  have hplace : message ≠ conquisterTrigger := by
    rintro rfl
    exact hnot (by decide)
  rw [aimed, raidTarget, amountTarget, emojiTarget, slotMove, hcut, hrest] at h
  simp [hplace] at h

theorem not_aimed_of_name {message : Str} {command : Command} (h : (parseCommand message).name = command.name) :
    aimed message = false := by
  by_contra haimed
  rw [Bool.not_eq_false] at haimed
  rw [name_of_isPrefixOf (begins_of_aimed haimed)] at h
  cases command <;> revert h <;> decide

/-- /unblock stands for no other line. -/
theorem expanded_unblock {context : CommandContext} {text : Str} (h : askedUnblock context text = true) :
    expanded context text = ⟨.none, expandAdventure (Text.trim text)⟩ ∧
      (parseCommand (expandAdventure (Text.trim text))).name = Command.unblock.name := by
  have hwe (rest : Str) (hname : (parseCommand (raidTrigger ++ rest)).name = Command.unblock.name) : False := by
    rw [parseCommand_raidTrigger] at hname
    revert hname
    decide
  have hname : (parseCommand (expanded context text).message).name = Command.unblock.name := of_decide_eq_true h
  rw [expanded] at hname ⊢
  by_cases hsame : expandBuy context (expandAdventure (Text.trim text)) = expandAdventure (Text.trim text)
  · rw [hsame] at hname ⊢
    by_cases hverb : (expandVerb (expandAdventure (Text.trim text))).verb = .none
    · rw [expandVerb_of_none hverb] at hname ⊢
      exact ⟨rfl, hname⟩
    · rw [expandVerb] at hname hverb
      split at hname
      · rename_i hnone
        rw [if_pos hnone] at hverb
        exact absurd rfl hverb
      split at hname
      · rw [show conquisterTrigger = raidTrigger ++ conquisterPlace by decide, List.append_assoc,
          List.append_assoc] at hname
        exact (hwe _ hname).elim
      · exact (hwe _ hname).elim
  · obtain ⟨-, rest, hrest⟩ := expandBuy_ne hsame
    rw [hrest, expandVerb_raidTrigger] at hname
    exact (hwe _ hname).elim

section
variable [SlotCodec] [Clock] {context : CommandContext} {moment : Moment} {bot : Bot} {message : Message}

/-- A line that is a command is left to its handler. -/
theorem carryOut_command {message : Str} {command : Command} (h : (parseCommand message).name = command.name) :
    carryOut context moment ⟨.none, message⟩ = commandLine context moment command (parseCommand message).argument := by
  have haimed := not_aimed_of_name h
  simp only [aimed, Bool.or_eq_false_iff] at haimed
  obtain ⟨⟨⟨⟨hplace, htarget⟩, hamount⟩, hemoji⟩, hmove⟩ := haimed
  rw [Option.isSome_eq_false_iff, Option.isNone_iff_eq_none] at hamount hemoji hmove
  have hne : message ≠ [] := by
    rintro rfl
    cases command <;> revert h <;> decide
  have hfound : findCommand command.name = some command := by cases command <;> decide
  rw [carryOut, if_neg (of_decide_eq_false hplace), hamount, hmove, hemoji]
  dsimp only
  rw [if_neg (of_decide_eq_false htarget), if_neg (not_not_intro rfl), if_neg hne, h, hfound]

omit [SlotCodec] [Clock] in
/-- What is not for the bot is neither an old line nor one it answers. -/
theorem silent_of_not_recognised (context : CommandContext) {text : Str} (h : commandIsForBot text = false) :
    isOldLine text = false ∧ (expanded context text).answered = false := by
  have hread : ownLineRead context text = true := by
    rw [ownLineRead]
    by_contra hnot
    simp only [Bool.or_eq_true, decide_eq_true_eq, not_or] at hnot
    rw [commandIsForBot_eq, (expandBuy_ne hnot.1).1, Bool.or_true] at h
    cases h
  rw [(recognised_iff context text).mpr hread, Bool.or_eq_false_iff] at h
  exact h

theorem respond_unguarded {text : Str} (hguarded : guarded context text = false) (hold : isOldLine text = false) :
    respond context moment text = carryOut context moment (expanded context text) := by
  rw [respond, turnAway, hguarded, oldLineInstead_pure hold]
  rfl

theorem dispatch_not_recognised {text : Str} (h : commandIsForBot text = false) (desk : Desk) :
    dispatch context moment text desk = (some none, desk) := by
  obtain ⟨hold, hanswered⟩ := silent_of_not_recognised context h
  have hguarded : guarded context text = false := by
    rw [guarded, h]
    simp
  rw [dispatch, respond_unguarded hguarded hold, carryOut_pure hanswered]
  rfl

/-- The desk after an attempt to see the sender that failed. -/
def unseenDesk (context : CommandContext) (moment : Moment) (desk : Desk) : Desk :=
  { desk with opened := desk.opened + 1, calls := desk.calls ++ [⟨desk.files, seenOp context moment, none⟩] }

/-- With /unblock he is told it is the owner's. -/
theorem dispatch_unblock (hname : context.username ≠ []) (howner : context.owner = false) {text : Str}
    (h : askedUnblock context text = true) (desk : Desk) :
    dispatch context moment text desk =
      if moment.fails desk.opened then (some (some .internalError), unseenDesk context moment desk)
      else (some (some (.notTrusted .unblock)), seenDesk context moment desk) := by
  obtain ⟨hexpanded, hunblock⟩ := expanded_unblock h
  have hguarded : guarded context text = false := by
    rw [guarded, hexpanded, hunblock]
    simp
  have hold : isOldLine text = false := not_isOldLine_of_handled (handled_of_name _ hunblock)
  have hcarry : carryOut context moment ⟨.none, expandAdventure (Text.trim text)⟩ =
      commandLine context moment .unblock (parseCommand (expandAdventure (Text.trim text))).argument :=
    carryOut_command hunblock
  rw [dispatch, respond_unguarded hguarded hold, hexpanded, hcarry, commandLine]
  cases hfails : moment.fails desk.opened with
  | true => exact Act.run_caught_none (Act.run_bind_none (rememberSender_failed hname hfails)) _
  | false =>
    apply Act.run_caught_some
    rw [Act.run_bind_some (rememberSender_ok hname hfails), Command.handler, handleUnblock, howner]
    rfl

/-- What a blocked player is told, and what the sentinel remembers of it. -/
theorem turnAway_blocked (hname : context.username ≠ []) {text : Str} (hguarded : guarded context text = true)
    {desk : Desk} (hopen : moment.fails desk.opened = false)
    (hblocked : 0 < desk.sentinel.blockedUntil (senderKey context desk.files.state) moment.now) :
    turnAway context moment text desk =
      (some (some (if (desk.sentinel.tellBlocked (senderKey context desk.files.state) moment.now).1 then
          some (.blocked (desk.sentinel.blockedUntil (senderKey context desk.files.state) moment.now - moment.now))
        else none)),
        { seenDesk context moment desk with
          sentinel := (desk.sentinel.tellBlocked (senderKey context desk.files.state) moment.now).2 }) := by
  rw [turnAway, if_pos hguarded, Act.run_bind_some (rememberSender_ok hname hopen),
    Act.run_bind_some (run_boundKey _), Act.run_bind_some (run_askSentinel _ _)]
  dsimp only
  have hkept : (seenDesk context moment desk).sentinel.blockedUntil (seenDesk context moment desk).bound moment.now > 0 :=
    hblocked
  rw [if_pos hkept]
  rfl

/-- With anything else he is told he is blocked, if it is time to tell him. -/
theorem dispatch_blocked (hname : context.username ≠ []) (howner : context.owner = false) {text : Str}
    (hasked : commandIsForBot text = true) (h : askedUnblock context text = false) (desk : Desk)
    (hblocked : 0 < desk.sentinel.blockedUntil (senderKey context desk.files.state) moment.now) :
    dispatch context moment text desk =
      if moment.fails desk.opened then (some (some .internalError), unseenDesk context moment desk)
      else
        (some (if (desk.sentinel.tellBlocked (senderKey context desk.files.state) moment.now).1 then
            some (.blocked (desk.sentinel.blockedUntil (senderKey context desk.files.state) moment.now - moment.now))
            else none),
          { seenDesk context moment desk with
            sentinel := (desk.sentinel.tellBlocked (senderKey context desk.files.state) moment.now).2 }) := by
  have hguarded : guarded context text = true := by
    rw [guarded, hasked, howner]
    simpa [hname] using of_decide_eq_false h
  rw [dispatch]
  cases hfails : moment.fails desk.opened with
  | true =>
    apply Act.run_caught_none
    rw [respond, turnAway, if_pos hguarded]
    exact Act.run_bind_none (Act.run_bind_none (rememberSender_failed hname hfails))
  | false =>
    apply Act.run_caught_some
    rw [respond, Act.run_bind_some (turnAway_blocked hname hguarded hfails hblocked)]
    rfl

/-- Whether he is answered: with /unblock always, else when it is time to tell him. -/
def answersHim (bot : Bot) (message : Message) : Bool :=
  askedUnblock message.context message.text ||
    (bot.sentinel.tellBlocked (senderKey message.context bot.files.state) message.moment.now).1

/-- A player who is kept out is seen, and answered or not. -/
theorem dispatch_keptOut (h : KeptOut bot message) (hasked : commandIsForBot message.text = true)
    (hopen : message.moment.fails 0 = false) :
    ∃ answer sentinel,
      dispatch message.context message.moment message.text bot.desk =
        (some answer, { seenDesk message.context message.moment bot.desk with sentinel := sentinel }) ∧
      answer.isSome = answersHim bot message ∧
      (askedUnblock message.context message.text = false →
        sentinel = (bot.sentinel.tellBlocked (senderKey message.context bot.files.state) message.moment.now).2) := by
  cases hunblock : askedUnblock message.context message.text with
  | true =>
    refine ⟨some (.notTrusted .unblock), bot.sentinel, ?_, by rw [answersHim, hunblock]; rfl, nofun⟩
    rw [dispatch_unblock h.named h.notOwner hunblock, if_neg]
    · rfl
    · exact Bool.eq_false_iff.mp hopen
  | false =>
    have hdispatch := dispatch_blocked h.named h.notOwner hasked hunblock bot.desk h.blocked
    have hopen' : message.moment.fails bot.desk.opened = false := hopen
    rw [hopen', if_neg Bool.false_ne_true] at hdispatch
    refine ⟨_, _, hdispatch, ?_, fun _ => rfl⟩
    rw [answersHim, hunblock, Bool.false_or]
    split
    · rename_i htold
      exact htold.symm
    · rename_i htold
      exact (Bool.eq_false_iff.mpr htold).symm

def toldState (moment : Moment) (opened : ℕ) (state : ConquisterState) (player : Str) : ConquisterState :=
  let paid := (inviteDue state player moment.samePerson).2
  if moment.fails opened then state
  else if moment.fails (opened + 1) then paid
  else (guideDue paid player).2

theorem payInvite_failed (seen : Str) {desk : Desk} (h : moment.fails desk.opened = true) :
    ∃ desk', payInvite moment seen desk = (some none, desk') ∧ desk'.files = desk.files ∧ desk'.sentinel = desk.sentinel :=
  ⟨_, Act.run_caught_none (Act.run_bind_none (ask_failed h)) _, rfl, rfl⟩

theorem payInvite_ok (seen : Str) {desk : Desk} (h : moment.fails desk.opened = false) :
    ∃ desk', payInvite moment seen desk = (some (some (inviteDue desk.files.state seen moment.samePerson).1), desk') ∧
      desk'.files = { desk.files with state := (inviteDue desk.files.state seen moment.samePerson).2 } ∧
      desk'.sentinel = desk.sentinel ∧ desk'.opened = desk.opened + 1 := by
  have hpaid : step desk.files (.reward seen moment.samePerson) =
      .ok (.reward (inviteDue desk.files.state seen moment.samePerson).1,
        { desk.files with state := (inviteDue desk.files.state seen moment.samePerson).2 }) := rfl
  refine ⟨{ desk with
      files := { desk.files with state := (inviteDue desk.files.state seen moment.samePerson).2 }
      opened := desk.opened + 1
      calls := desk.calls ++ [⟨desk.files, .reward seen moment.samePerson,
        some (.reward (inviteDue desk.files.state seen moment.samePerson).1)⟩] },
    Act.run_caught_some ?_ _, rfl, rfl, rfl⟩
  rw [Act.run_bind_some (ask_ok h hpaid)]
  rfl

theorem showGuide_failed (seen : Str) {desk : Desk} (h : moment.fails desk.opened = true) :
    ∃ desk', showGuide moment seen desk = (some false, desk') ∧ desk'.files = desk.files ∧
      desk'.sentinel = desk.sentinel :=
  ⟨_, Act.run_caught_none (Act.run_bind_none (ask_failed h)) _, rfl, rfl⟩

theorem showGuide_ok (seen : Str) {desk : Desk} (h : moment.fails desk.opened = false) :
    ∃ desk', showGuide moment seen desk = (some (guideDue desk.files.state seen).1, desk') ∧
      desk'.files = { desk.files with state := (guideDue desk.files.state seen).2 } ∧
      desk'.sentinel = desk.sentinel := by
  have hshown : step desk.files (.guide seen) = .ok (.guide (guideDue desk.files.state seen).1,
      { desk.files with state := (guideDue desk.files.state seen).2 }) := rfl
  refine ⟨{ desk with
      files := { desk.files with state := (guideDue desk.files.state seen).2 }
      opened := desk.opened + 1
      calls := desk.calls ++ [⟨desk.files, .guide seen, some (.guide (guideDue desk.files.state seen).1)⟩] },
    Act.run_caught_some ?_ _, rfl, rfl⟩
  rw [Act.run_bind_some (ask_ok h hshown)]
  rfl

theorem afterReply_files (seen : Str) (answer : Answer) (desk : Desk) :
    (afterReply moment seen answer desk).2.files =
        { desk.files with state := toldState moment desk.opened desk.files.state seen } ∧
      (afterReply moment seen answer desk).2.sentinel = desk.sentinel := by
  rw [afterReply, toldState]
  cases hopen : moment.fails desk.opened with
  | true =>
    obtain ⟨desk', hpaid, hfiles, hsentinel⟩ := payInvite_failed seen hopen
    rw [Act.run_bind_some hpaid]
    exact ⟨hfiles, hsentinel⟩
  | false =>
    obtain ⟨desk', hpaid, hfiles, hsentinel, hopened⟩ := payInvite_ok seen hopen
    rw [Act.run_bind_some hpaid]
    dsimp only
    cases hagain : moment.fails (desk.opened + 1) with
    | true =>
      obtain ⟨desk'', hguide, hsame, htold⟩ := showGuide_failed seen (hopened ▸ hagain)
      rw [Act.run_bind_some hguide]
      exact ⟨hsame.trans hfiles, htold.trans hsentinel⟩
    | false =>
      obtain ⟨desk'', hguide, hshown, htold⟩ := showGuide_ok seen (hopened ▸ hagain)
      rw [Act.run_bind_some hguide]
      refine ⟨hshown.trans ?_, htold.trans hsentinel⟩
      rw [hfiles]
      rfl

/-- What follows a reply follows it only where the game is played, and for somebody who was seen. -/
theorem hear_desk {answer : Option Answer} {desk : Desk}
    (h : dispatch message.context message.moment message.text bot.desk = (some answer, desk)) :
    (bot.hear message).2.files =
        (if answer.isSome = true ∧ desk.bound ≠ [] ∧ message.context.claimsAllowed = true
          then { desk.files with state := toldState message.moment desk.opened desk.files.state desk.bound }
          else desk.files) ∧
      (bot.hear message).2.sentinel = desk.sentinel := by
  rw [Bot.hear, commandDispatch, Act.run_bind_some h, Act.run_bind_some (run_boundKey _)]
  cases answer with
  | none => exact ⟨rfl, rfl⟩
  | some answer =>
    dsimp only
    by_cases hquiet : desk.bound = [] ∨ ¬ message.context.claimsAllowed = true
    · rw [if_pos hquiet, if_neg (by tauto)]
      exact ⟨rfl, rfl⟩
    · rw [if_neg hquiet, if_pos (by tauto)]
      obtain ⟨spoken, desk', hspoken⟩ := afterReply_some desk.bound answer desk
      obtain ⟨hfiles, hsentinel⟩ := afterReply_files desk.bound answer desk
      rw [hspoken] at hfiles hsentinel
      rw [Act.run_bind_some hspoken]
      exact ⟨hfiles, hsentinel⟩

end

/-- The state without the record of who was seen. -/
def beside (state : ConquisterState) : ConquisterState :=
  { state with
    accounts := .empty, displayNames := .empty, telegramNames := .empty, ircNicks := .empty, telegramIds := .empty
    ircNames := .empty, joined := .empty, welcomed := .empty, inviteDays := .empty, inviteLastDay := .empty }

theorem beside_introduce (s : ConquisterState) (userId : ℤ) (username accountName : Str) (now : ℤ) :
    beside (introduce s userId username accountName now) = beside s := by
  simp only [introduce, join, rememberPlatform, rememberIrc, rememberTelegram, showName, takeName, bindAccount]
  split_ifs <;> rfl

theorem beside_countDay [Clock] (s : ConquisterState) (key : Str) (now : ℤ) : beside (countDay s key now) = beside s := by
  rw [countDay]
  split <;> rfl

section
variable [SlotCodec]

/-- The 🎈 everybody starts with is still due to him, and hanging it changes what he has. -/
def balloonDue (state : ConquisterState) (player : Str) (limit : ℕ) : Bool :=
  handsBalloon state player limit && (hangBalloon state player limit).any fun hung => hung ≠ state

/-- Hanging a 🎈 goes by the houses and the gear, and changes nothing else. -/
theorem hangBalloon_congr {s t : ConquisterState} (hhouse : t.furniture = s.furniture) (hgear : t.equipped = s.equipped)
    (player : Str) (limit : ℕ) :
    hangBalloon t player limit = (hangBalloon s player limit).map fun hung =>
      { t with furniture := hung.furniture, equipped := hung.equipped } := by
  have hslots : slotsOf t player = slotsOf s player := by rw [slotsOf, slotsOf, hhouse]
  have hgears : gearOf t player = gearOf s player := by rw [gearOf, gearOf, hgear]
  rw [hangBalloon, hangBalloon, putOn, putOn, putInHouse, putInHouse, hslots, hgears]
  split
  · rfl
  cases putIn (gearOf s player) Power.balloon.emoji carriedLimit with
  | some slots =>
    simp only [Option.map_some, hangGear, hgear, ← hhouse]
  | none =>
    cases putIn (slotsOf s player) Power.balloon.emoji limit with
    | some slots => simp only [Option.map_none, Option.map_some, hang, hhouse, ← hgear]
    | none => rfl

/-- Welcoming a player leaves everything but the record alone, unless his 🎈 is due. -/
theorem beside_welcome {s t : ConquisterState} (hhouse : t.furniture = s.furniture) (hgear : t.equipped = s.equipped)
    (hwelcomed : t.welcomed = s.welcomed) (player : Str) (limit : ℕ) :
    beside (welcome t player limit) = beside t ↔ balloonDue s player limit = false := by
  have hhands : handsBalloon t player limit = handsBalloon s player limit :=
    handsBalloon_congr (by rw [hwelcomed]) (by rw [slotsOf, slotsOf, hhouse]) (by rw [gearOf, gearOf, hgear]) limit
  have hhung : hangBalloon (markWelcomed t player) player limit = (hangBalloon s player limit).map fun hung =>
      { markWelcomed t player with furniture := hung.furniture, equipped := hung.equipped } := by
    have hsame : (markWelcomed t player).furniture = s.furniture := hhouse
    have hworn : (markWelcomed t player).equipped = s.equipped := hgear
    exact hangBalloon_congr hsame hworn player limit
  rw [balloonDue, ← hhands, handsBalloon, welcome]
  by_cases hfresh : counter t.welcomed player = 0
  · rw [if_neg (not_not_intro hfresh)]
    cases hballoon : hasBalloon (markWelcomed t player) player with
    | true => simp [beside, markWelcomed]
    | false =>
      rw [hhung]
      cases hsome : hangBalloon s player limit with
      | none => simp [beside, markWelcomed]
      | some hung =>
        have hshape : hung = { s with furniture := hung.furniture, equipped := hung.equipped } := by
          have hself := hangBalloon_congr (s := s) (t := s) rfl rfl player limit
          rw [hsome] at hself
          exact Option.some.inj hself
        have hsame : beside ({ markWelcomed t player with
            furniture := hung.furniture, equipped := hung.equipped }) = beside t ↔ hung = s := by
          constructor
          · intro h
            have hkept := congrArg ConquisterState.furniture h
            have hworn := congrArg ConquisterState.equipped h
            change hung.furniture = t.furniture at hkept
            change hung.equipped = t.equipped at hworn
            rw [hshape, hkept, hworn, hhouse, hgear]
          · rintro rfl
            rw [← hhouse, ← hgear]
            rfl
        simpa [hfresh] using hsame
  · rw [if_pos hfresh]
    simp [hfresh]

end

/-- After a reply there is something to do for him: an invite to settle, or the guide to show. -/
def newsDue (moment : Moment) (opened : ℕ) (state : ConquisterState) (player : Str) : Bool :=
  !moment.fails opened &&
    ((rewardDue state player).isSome || (!moment.fails (opened + 1) && (guideDue state player).1))

theorem toldState_of_not_due {moment : Moment} {opened : ℕ} {state : ConquisterState} {player : Str}
    (h : newsDue moment opened state player = false) : toldState moment opened state player = state := by
  rw [toldState]
  cases hopen : moment.fails opened with
  | true => rfl
  | false =>
    simp only [newsDue, hopen, Bool.not_false, Bool.true_and, Bool.or_eq_false_iff] at h
    obtain ⟨hreward, hguide⟩ := h
    rw [Option.isSome_eq_false_iff, Option.isNone_iff_eq_none] at hreward
    have hpaid : (inviteDue state player moment.samePerson).2 = state := by rw [inviteDue, hreward]
    rw [if_neg Bool.false_ne_true, hpaid]
    cases hagain : moment.fails (opened + 1) with
    | true => rfl
    | false =>
      simp only [hagain, Bool.not_false, Bool.true_and] at hguide
      rw [if_neg Bool.false_ne_true]
      rw [guideDue] at hguide ⊢
      split
      · rfl
      · rename_i hshown
        rw [if_neg hshown] at hguide
        cases hguide

theorem toldState_of_due {moment : Moment} {opened : ℕ} {state : ConquisterState} {player : Str}
    (h : newsDue moment opened state player = true) :
    (toldState moment opened state player).invitePaid ≠ state.invitePaid ∨
      (toldState moment opened state player).guided ≠ state.guided := by
  rw [newsDue, Bool.and_eq_true, Bool.not_eq_true'] at h
  obtain ⟨hopen, hnews⟩ := h
  have hguided (s : ConquisterState) : (guideDue s player).2.invitePaid = s.invitePaid := by
    rw [guideDue]
    split <;> rfl
  rw [toldState, hopen, if_neg Bool.false_ne_true]
  cases hreward : rewardDue state player with
  | some inviter =>
    left
    have hunpaid : state.invitePaid.find player = none := by
      rw [rewardDue] at hreward
      split at hreward
      · cases hreward
      · rename_i hdue
        rw [not_or, Option.isSome_iff_ne_none, not_not] at hdue
        exact hdue.1
    have hpaid : ((inviteDue state player moment.samePerson).2.invitePaid.find player).isSome = true := by
      rw [inviteDue, hreward]
      dsimp only
      split
      · change ((state.invitePaid.set player (-1)).find player).isSome = true
        rw [OrderedMap.find_set_self]
        rfl
      · change ((state.invitePaid.set player 1).find player).isSome = true
        rw [OrderedMap.find_set_self]
        rfl
    intro hsame
    have hkept : (inviteDue state player moment.samePerson).2.invitePaid = state.invitePaid := by
      split at hsame
      · exact hsame
      · rwa [hguided] at hsame
    rw [hkept, hunpaid] at hpaid
    cases hpaid
  | none =>
    right
    rw [hreward, Option.isSome_none, Bool.false_or, Bool.and_eq_true, Bool.not_eq_true'] at hnews
    have hpaid : (inviteDue state player moment.samePerson).2 = state := by rw [inviteDue, hreward]
    rw [hnews.1, if_neg Bool.false_ne_true, hpaid]
    have hguide := hnews.2
    rw [guideDue] at hguide ⊢
    split
    · rename_i hshown
      rw [if_pos hshown] at hguide
      cases hguide
    · rename_i hshown
      intro hsame
      have hcounted := congrArg (fun guided => counter guided player) hsame
      dsimp only at hcounted
      rw [counter_set_self] at hcounted
      rw [not_or] at hshown
      exact hshown.2 (fun hzero => absurd (hcounted.trans hzero) (by decide))

section
variable [SlotCodec] [Clock] {bot : Bot} {message : Message}

/-- How many 🎈 a newcomer has room for: none where nobody is handed one. -/
def starterRoom (config : AppConfig) : ℕ := if config.starterBalloon then config.furnitureLimit else 0

/-- Whether a blocked player's message leaves everything but the record alone. It is not for the bot, or he
cannot be seen, or no 🎈 is due to him and, if he is answered where the game is played, no news either. -/
def leftAlone (bot : Bot) (message : Message) : Bool :=
  !commandIsForBot message.text || message.moment.fails 0 ||
    (!balloonDue bot.files.state (senderKey message.context bot.files.state) (starterRoom message.context.config) &&
      !(answersHim bot message && senderKey message.context bot.files.state ≠ [] && message.context.claimsAllowed &&
        newsDue message.moment 1 (seenState message.context message.moment bot.files.state)
          (senderKey message.context bot.files.state)))

theorem beside_seenState (context : CommandContext) (moment : Moment) (s : ConquisterState) :
    beside (seenState context moment s) = beside s ↔
      balloonDue s (senderKey context s) (starterRoom context.config) = false := by
  obtain ⟨hquiet, hwelcomed⟩ := introduce_quiet s context.userId context.username context.accountName
    (if context.config.newcomers then moment.now else 0)
  rw [← beside_welcome hquiet.furniture hquiet.equipped hwelcomed, beside_introduce, seenState, playerSeen,
    beside_countDay]
  rfl

theorem seenState_kept (context : CommandContext) (moment : Moment) (s : ConquisterState) :
    (seenState context moment s).invitePaid = s.invitePaid ∧ (seenState context moment s).guided = s.guided := by
  have hwelcome (t : ConquisterState) (player : Str) (limit : ℕ) :
      (welcome t player limit).invitePaid = t.invitePaid ∧ (welcome t player limit).guided = t.guided := by
    rw [welcome]
    split
    · exact ⟨rfl, rfl⟩
    split
    · exact ⟨rfl, rfl⟩
    rw [hangBalloon_congr (t := markWelcomed t player) (s := markWelcomed t player) rfl rfl]
    cases hangBalloon (markWelcomed t player) player limit with
    | none => exact ⟨rfl, rfl⟩
    | some hung => exact ⟨rfl, rfl⟩
  have hcounted (t : ConquisterState) (key : Str) (now : ℤ) :
      (countDay t key now).invitePaid = t.invitePaid ∧ (countDay t key now).guided = t.guided := by
    rw [countDay]
    split
    · exact ⟨rfl, rfl⟩
    · exact ⟨rfl, rfl⟩
  have hbeside := beside_introduce s context.userId context.username context.accountName
    (if context.config.newcomers then moment.now else 0)
  rw [seenState, playerSeen]
  exact ⟨(hcounted _ _ _).1.trans ((hwelcome _ _ _).1.trans (congrArg ConquisterState.invitePaid hbeside :)),
    (hcounted _ _ _).2.trans ((hwelcome _ _ _).2.trans (congrArg ConquisterState.guided hbeside :))⟩

/-- What is left of the state after he was seen, and after whatever follows a reply. -/
theorem beside_toldState (context : CommandContext) (moment : Moment) (opened : ℕ) (s : ConquisterState) (player : Str) :
    beside (toldState moment opened (seenState context moment s) player) = beside s ↔
      balloonDue s (senderKey context s) (starterRoom context.config) = false ∧
        newsDue moment opened (seenState context moment s) player = false := by
  obtain ⟨hpaid, hguided⟩ := seenState_kept context moment s
  rw [← beside_seenState context moment s]
  constructor
  · intro h
    have hnews : newsDue moment opened (seenState context moment s) player = false := by
      by_contra hdue
      rw [Bool.not_eq_false] at hdue
      rcases toldState_of_due hdue with hchanged | hchanged
      · exact hchanged ((congrArg ConquisterState.invitePaid h :).trans hpaid.symm)
      · exact hchanged ((congrArg ConquisterState.guided h :).trans hguided.symm)
    rw [toldState_of_not_due hnews] at h
    exact ⟨h, hnews⟩
  · rintro ⟨h, hnews⟩
    rw [toldState_of_not_due hnews]
    exact h

theorem hear_unseen (h : KeptOut bot message) (hasked : commandIsForBot message.text = true)
    (hfails : message.moment.fails 0 = true) :
    dispatch message.context message.moment message.text bot.desk =
      (some (some .internalError), unseenDesk message.context message.moment bot.desk) := by
  have hfails' : message.moment.fails bot.desk.opened = true := hfails
  cases hunblock : askedUnblock message.context message.text with
  | true => rw [dispatch_unblock h.named h.notOwner hunblock, hfails', if_pos rfl]
  | false => rw [dispatch_blocked h.named h.notOwner hasked hunblock bot.desk h.blocked, hfails', if_pos rfl]

/-- A blocked player's message does nothing exactly when it leaves everything alone. -/
theorem keptOut_does_nothing_iff (h : KeptOut bot message) :
    (beside (bot.after (.message message)).files.state = beside bot.files.state ∧
      (bot.after (.message message)).files.quotes = bot.files.quotes) ↔ leftAlone bot message = true := by
  cases hasked : commandIsForBot message.text with
  | false =>
    have hsilent := hear_silent bot message (dispatch_not_recognised hasked bot.desk)
    rw [Bot.after, hsilent, leftAlone, hasked]
    simp [Bot.desk]
  | true =>
    cases hfails : message.moment.fails 0 with
    | true =>
      obtain ⟨hfiles, -⟩ := hear_desk (hear_unseen h hasked hfails)
      have hbound : (unseenDesk message.context message.moment bot.desk).bound = [] := rfl
      rw [if_neg (by rw [hbound]; simp)] at hfiles
      rw [Bot.after, hfiles, leftAlone, hasked, hfails]
      simp [unseenDesk, Bot.desk]
    | false =>
      obtain ⟨answer, sentinel, hdispatch, hanswer, -⟩ := dispatch_keptOut h hasked hfails
      obtain ⟨hfiles, -⟩ := hear_desk hdispatch
      rw [hanswer] at hfiles
      rw [Bot.after, leftAlone, hasked, hfails]
      by_cases htold : answersHim bot message = true ∧ senderKey message.context bot.files.state ≠ [] ∧
          message.context.claimsAllowed = true
      · have hstate : (bot.hear message).2.files = { bot.files with
            state := toldState message.moment 1 (seenState message.context message.moment bot.files.state)
              (senderKey message.context bot.files.state) } := hfiles.trans (if_pos htold)
        rw [hstate]
        dsimp only
        rw [beside_toldState]
        simp [htold.1, htold.2.1, htold.2.2]
      · have hstate : (bot.hear message).2.files = { bot.files with
            state := seenState message.context message.moment bot.files.state } := hfiles.trans (if_neg htold)
        rw [hstate]
        dsimp only
        rw [beside_seenState]
        simp only [not_and_or, Bool.not_eq_true, not_not] at htold
        rcases htold with h | h | h <;> simp [h]

end

/-- The time he was told last is the same, or an hour later at least. -/
def Later (before after : Option ℤ) : Prop :=
  after = before ∨ ∃ told, after = some told ∧ ∀ last, before = some last → last + 3600 ≤ told

theorem Later.trans {first second third : Option ℤ} (h : Later first second) (hnext : Later second third) :
    Later first third := by
  rcases hnext with rfl | ⟨told, rfl, hsecond⟩
  · exact h
  rcases h with rfl | ⟨middle, rfl, hfirst⟩
  · exact .inr ⟨told, rfl, hsecond⟩
  · refine .inr ⟨told, rfl, ?_⟩
    intro last hlast
    have hone := hfirst last hlast
    have htwo := hsecond middle rfl
    omega

/-- How a message may move the sentinel, seen from one player: as long as he stays blocked, he is told
again after an hour at least. -/
def Spaced (player : Str) (desk desk' : Desk) : Prop :=
  (desk'.sentinel.blocked.find player).isSome = true →
    (desk.sentinel.blocked.find player).isSome = true ∧
      Later (desk.sentinel.told.find player) (desk'.sentinel.told.find player)

theorem Spaced.of_same {player : Str} {desk desk' : Desk} (h : desk'.sentinel = desk.sentinel) :
    Spaced player desk desk' := by
  intro hblocked
  rw [h] at hblocked ⊢
  exact ⟨hblocked, .inl rfl⟩

theorem spaced_unblock (player other : Str) (desk : Desk) :
    Spaced player desk { desk with sentinel := (desk.sentinel.unblock other).2 } := by
  intro hblocked
  change ((desk.sentinel.blocked.erase other).find player).isSome = true at hblocked
  change _ ∧ Later _ ((desk.sentinel.told.erase other).find player)
  rw [OrderedMap.find_erase] at hblocked ⊢
  split at hblocked
  · cases hblocked
  · rename_i hne
    rw [if_neg hne]
    exact ⟨hblocked, .inl rfl⟩

theorem tellBlocked_blocked (sentinel : Sentinel) (player : Str) (now : ℤ) :
    (sentinel.tellBlocked player now).2.blocked = sentinel.blocked := by
  rw [Sentinel.tellBlocked]
  split
  · split <;> rfl
  · rfl

theorem tellBlocked_later (sentinel : Sentinel) (player other : Str) (now : ℤ) :
    Later (sentinel.told.find player) ((sentinel.tellBlocked other now).2.told.find player) := by
  have hset (h : ∀ last, sentinel.told.find other = some last → last + 3600 ≤ now) :
      Later (sentinel.told.find player) ((sentinel.told.set other now).find player) := by
    rw [OrderedMap.find_set]
    split
    · rename_i hsame
      exact .inr ⟨now, rfl, hsame ▸ h⟩
    · exact .inl rfl
  rw [Sentinel.tellBlocked]
  split
  · rename_i told htold
    split
    · exact .inl rfl
    · rename_i hlate
      apply hset
      intro last hlast
      rw [htold] at hlast
      cases hlast
      omega
  · rename_i htold
    apply hset
    intro last hlast
    rw [htold] at hlast
    cases hlast

section
variable [SlotCodec] [Clock]

theorem ask_sentinel (moment : Moment) (op : Op) (desk : Desk) : (ask moment op desk).2.sentinel = desk.sentinel := by
  rw [ask]
  split <;> rfl

omit [SlotCodec] [Clock] in
theorem spaced_preorder (player : Str) : IsPreorder Desk (Spaced player) where
  refl := fun _ => .of_same rfl
  trans := by
    intro first second third h hnext hblocked
    obtain ⟨hmiddle, hlater⟩ := hnext hblocked
    obtain ⟨hfirst, hsooner⟩ := h hmiddle
    exact ⟨hfirst, hsooner.trans hlater⟩

theorem spaced_routine (context : CommandContext) (moment : Moment) (player : Str) :
    Routine context moment (Spaced player) where
  preorder := spaced_preorder player
  ask op _ desk := .of_same (ask_sentinel moment op desk)
  consult _ _ := .of_same rfl
  remember :=
    have := spaced_preorder player
    remember_of_ask (fun desk => .of_same (ask_sentinel moment _ desk)) fun _ _ => .of_same rfl
  unblock other desk := spaced_unblock player other desk
  tellBlocked other now desk := by
    intro hblocked
    change ((desk.sentinel.tellBlocked other now).2.blocked.find player).isSome = true at hblocked
    rw [tellBlocked_blocked] at hblocked
    exact ⟨hblocked, tellBlocked_later desk.sentinel player other now⟩

variable {bot : Bot} {message : Message}

/-- What happens to the bot tells nobody who stays blocked again before an hour has passed. -/
theorem after_later (bot : Bot) (event : Event) (player : Str)
    (h : ((bot.after event).sentinel.blocked.find player).isSome = true) :
    Later (bot.sentinel.told.find player) ((bot.after event).sentinel.told.find player) := by
  cases event with
  | message message =>
    have hspaced := (spaced_routine message.context message.moment player).message_of_ask
      (fun op desk => .of_same (ask_sentinel message.moment op desk)) message.text bot.desk
    exact (hspaced h).2
  | raidDue now rules draws => exact .inl rfl
  | handOut furnitureLimit => exact .inl rfl
  | sortOut => exact .inl rfl
  | block other until' => exact .inl rfl

theorem run_later (bot : Bot) (events : List Event) (player : Str)
    (h : ∀ early late, events = early ++ late → ((bot.run early).sentinel.blocked.find player).isSome = true) :
    Later (bot.sentinel.told.find player) ((bot.run events).sentinel.told.find player) := by
  induction events generalizing bot with
  | nil => exact .inl rfl
  | cons event events ih =>
    have hfirst := after_later bot event player (h [event] events rfl)
    apply hfirst.trans
    apply ih (bot.after event)
    intro early late hsplit
    exact h (event :: early) late (by rw [hsplit]; rfl)

/-- A text a blocked player is not answered beyond his hour: not /unblock, and the files can be opened. -/
def heeds (message : Message) : Bool := !askedUnblock message.context message.text && !message.moment.fails 0

/-- When he is answered to such a message he is told he is blocked, and that is remembered. -/
theorem answered_told (h : KeptOut bot message) (hheeds : heeds message = true)
    (hanswered : (bot.hear message).1.isSome = true) :
    (bot.after (.message message)).sentinel.told.find (senderKey message.context bot.files.state) =
        some message.moment.now ∧
      ∀ last, bot.sentinel.told.find (senderKey message.context bot.files.state) = some last →
        last + 3600 ≤ message.moment.now := by
  rw [heeds, Bool.and_eq_true, Bool.not_eq_true', Bool.not_eq_true'] at hheeds
  obtain ⟨hunblock, hopen⟩ := hheeds
  have hasked : commandIsForBot message.text = true := by
    by_contra hnot
    rw [Bool.not_eq_true] at hnot
    rw [hear_silent bot message (dispatch_not_recognised hnot bot.desk)] at hanswered
    cases hanswered
  obtain ⟨answer, sentinel, hdispatch, hanswer, hsentinel⟩ := dispatch_keptOut h hasked hopen
  rw [hear_isSome bot message hdispatch, hanswer, answersHim, hunblock, Bool.false_or] at hanswered
  obtain ⟨-, hleft⟩ := hear_desk hdispatch
  have htold : (bot.after (.message message)).sentinel =
      (bot.sentinel.tellBlocked (senderKey message.context bot.files.state) message.moment.now).2 :=
    hleft.trans (hsentinel hunblock)
  rw [htold]
  rw [Sentinel.tellBlocked] at hanswered ⊢
  split at hanswered
  · rename_i last hlast
    split at hanswered
    · cases hanswered
    · rename_i hlate
      rw [hlast]
      rw [if_neg hlate]
      refine ⟨OrderedMap.find_set_self _ _ _, ?_⟩
      intro last' hlast'
      cases hlast'
      omega
  · rename_i hnever
    rw [hnever]
    refine ⟨OrderedMap.find_set_self _ _ _, ?_⟩
    intro last hlast
    cases hlast

/-- Anything else for the bot is answered whenever it comes. -/
theorem unheeded_answered (h : KeptOut bot message) (hasked : commandIsForBot message.text = true)
    (hheeds : heeds message = false) : (bot.hear message).1.isSome = true := by
  cases hfails : message.moment.fails 0 with
  | true => rw [hear_isSome bot message (hear_unseen h hasked hfails)]; rfl
  | false =>
    rw [heeds, hfails, Bool.not_false, Bool.and_true, Bool.not_eq_false'] at hheeds
    obtain ⟨answer, sentinel, hdispatch, hanswer, -⟩ := dispatch_keptOut h hasked hfails
    rw [hear_isSome bot message hdispatch, hanswer, answersHim, hheeds]
    rfl

/-- Two answers to a player who stays blocked in between come an hour apart. -/
theorem answers_apart {first second : Message} {between : List Event} {player : Str}
    (hfirst : KeptOut bot first) (hsecond : KeptOut ((bot.after (.message first)).run between) second)
    (hplayer : senderKey first.context bot.files.state = player)
    (hagain : senderKey second.context ((bot.after (.message first)).run between).files.state = player)
    (hstays : ∀ early late, between = early ++ late →
      (((bot.after (.message first)).run early).sentinel.blocked.find player).isSome = true)
    (hheeds : heeds first = true) (hheedsagain : heeds second = true)
    (hanswered : (bot.hear first).1.isSome = true)
    (hansweredagain : (((bot.after (.message first)).run between).hear second).1.isSome = true) :
    first.moment.now + 3600 ≤ second.moment.now := by
  obtain ⟨htold, -⟩ := answered_told hfirst hheeds hanswered
  obtain ⟨-, hlate⟩ := answered_told hsecond hheedsagain hansweredagain
  rw [hplayer] at htold
  rw [hagain] at hlate
  rcases run_later _ between player hstays with hsame | ⟨told, hlast, hlater⟩
  · exact hlate _ (hsame.trans htold)
  · have hone := hlater _ htold
    have htwo := hlate _ hlast
    omega

/-- A blocked player's message does nothing exactly when it leaves everything alone; two answers to him
come an hour apart, as long as he heeds, and stays blocked; and whoever does not heed is always answered. -/
theorem blocked_does_nothing :
    (∀ (bot : Bot) (message : Message), KeptOut bot message →
      ((beside (bot.after (.message message)).files.state = beside bot.files.state ∧
        (bot.after (.message message)).files.quotes = bot.files.quotes) ↔ leftAlone bot message = true)) ∧
    (∀ (bot : Bot) (first second : Message) (between : List Event) (player : Str),
      KeptOut bot first → KeptOut ((bot.after (.message first)).run between) second →
      senderKey first.context bot.files.state = player →
      senderKey second.context ((bot.after (.message first)).run between).files.state = player →
      (∀ early late, between = early ++ late →
        (((bot.after (.message first)).run early).sentinel.blocked.find player).isSome = true) →
      heeds first = true → heeds second = true → (bot.hear first).1.isSome = true →
      (((bot.after (.message first)).run between).hear second).1.isSome = true →
      first.moment.now + 3600 ≤ second.moment.now) ∧
    (∀ (bot : Bot) (message : Message), KeptOut bot message → commandIsForBot message.text = true →
      heeds message = false → (bot.hear message).1.isSome = true) :=
  ⟨fun _ _ h => keptOut_does_nothing_iff h,
    fun _ _ _ _ _ hfirst hsecond hplayer hagain hstays hheeds hheedsagain hanswered hansweredagain =>
      answers_apart hfirst hsecond hplayer hagain hstays hheeds hheedsagain hanswered hansweredagain,
    fun _ _ h hasked hheeds => unheeded_answered h hasked hheeds⟩

end

/-- Ada, blocked until the evening, who was seen before. -/
def adaBlocked (state : ConquisterState) : Bot where
  files := { state := { state with welcomed := OrderedMap.empty.set (utf8 "irc:ada") 1 } }
  sentinel := { blocked := OrderedMap.empty.set (utf8 "irc:ada") 64800 }

theorem keptOut_adaBlocked (state : ConquisterState) (text : String)
    (h : (adaBlocked state).sentinel.blockedUntil
      (senderKey (adaWrites text).context (adaBlocked state).files.state) 43200 = 64800) :
    KeptOut (adaBlocked state) (adaWrites text) where
  named := show utf8 "ada" ≠ [] by decide
  notOwner := rfl
  blocked := by
    rw [show (adaWrites text).moment.now = 43200 from rfl, h]
    decide

def adaAgain (text : String) (wait : ℤ) : Message := { adaWrites text with moment := { now := 43200 + wait } }

/-- Blocked, she asks for the help, and nothing but the record moves; asking again she is answered no sooner than an
hour later, and asking to be let in at once. -/
theorem blocked_does_nothing_help :
    (beside (@Bot.after _ utc (adaBlocked {}) (.message (adaWrites "/help"))).files.state =
        beside (adaBlocked {}).files.state ∧
      (@Bot.after _ utc (adaBlocked {}) (.message (adaWrites "/help"))).files.quotes = (adaBlocked {}).files.quotes) ∧
    ((@Bot.hear _ utc (@Bot.after _ utc (adaBlocked {}) (.message (adaWrites "/help"))) (adaAgain "/help" 3600)).1.isSome = true ∧
      (@Bot.hear _ utc (@Bot.after _ utc (adaBlocked {}) (.message (adaWrites "/help"))) (adaAgain "/help" 3599)).1.isSome =
        false) ∧
    (@Bot.hear _ utc (adaBlocked {}) (adaWrites "/unblock ada")).1.isSome = true := by
  obtain ⟨hnothing, happart, hanswered⟩ := @blocked_does_nothing _ utc
  have hhelp : KeptOut (adaBlocked {}) (adaWrites "/help") := keptOut_adaBlocked {} "/help" (by decide +kernel)
  refine ⟨(hnothing _ _ hhelp).mpr (by decide +kernel), ⟨by decide +kernel, ?_⟩, ?_⟩
  · rw [← Bool.not_eq_true]
    intro hsoon
    have hwait := happart (adaBlocked {}) (adaWrites "/help") (adaAgain "/help" 3599) [] (utf8 "irc:ada") hhelp
      ⟨show utf8 "ada" ≠ [] by decide, rfl, by decide +kernel⟩ (by decide +kernel) (by decide +kernel)
      (fun early late hnone => by
        rw [(List.append_eq_nil_iff.mp hnone.symm).1]
        decide +kernel)
      (by decide +kernel) (by decide +kernel) (by decide +kernel) hsoon
    exact absurd hwait (by decide)
  · exact hanswered _ _ (keptOut_adaBlocked {} "/unblock ada" (by decide +kernel)) (by decide +kernel) (by decide +kernel)

/-- Ada came three days ago, and Bob brought her. -/
def adaBrought : ConquisterState :=
  { joined := OrderedMap.empty.set (utf8 "irc:ada") 1
    invitedBy := OrderedMap.empty.set (utf8 "irc:ada") (utf8 "irc:bob")
    inviteDays := OrderedMap.empty.set (utf8 "irc:ada") 3 }

/-- Blocked, she asks for the help, is told she is blocked, and is paid for having been brought. -/
theorem blocked_player_is_paid :
    KeptOut (adaBlocked adaBrought) (adaWrites "/help") ∧
    counter (adaBlocked adaBrought).files.state.scores (utf8 "irc:ada") = 0 ∧
    counter (@Bot.after _ utc (adaBlocked adaBrought) (.message (adaWrites "/help"))).files.state.scores
      (utf8 "irc:ada") = 500 ∧
    ((@Bot.hear _ utc (adaBlocked adaBrought) (adaWrites "/unblock ada")).1.isSome = true ∧
      (@Bot.hear _ utc (@Bot.after _ utc (adaBlocked adaBrought) (.message (adaWrites "/unblock ada")))
        (adaWrites "/unblock ada")).1.isSome = true) := by
  refine ⟨keptOut_adaBlocked adaBrought "/help" (by decide +kernel), by decide +kernel, by decide +kernel, ?_⟩
  constructor
  · decide +kernel
  · decide +kernel

end NorelecBot
