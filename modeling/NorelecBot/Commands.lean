import NorelecBot.Grammar
import NorelecBot.Operations
import NorelecBot.Sentinel
import NorelecBot.Lib.Acts

/-! # What each command does

A command asks the game for one thing at most, and says what came of it. It
reads and changes the desk its message is on; an exception leaves the desk as it
is by then. What is said is kept as the facts it tells, not as its words.
-/

namespace NorelecBot
open Lib

structure AppConfig where
  quoteCost : ℤ := 1000
  /-- Pieces of word a quote may not contain, whatever the spelling. -/
  quoteBanned : List Str := []
  furnitureCost : ℤ := 10000
  furnitureLimit : ℕ := 10
  furnitureInflation : ℤ := 50
  lootDivisor : ℤ := 50
  cooldownSeconds : ℤ := 300
  travelDivisor : ℤ := 350
  lightningPercent : ℤ := 10
  smearedSeconds : ℤ := 86400
  rocketPercent : ℤ := 10
  pleadingPercent : ℤ := 10
  bombDudPercent : ℤ := 10
  nukeCost : ℤ := 1000000
  dogPercent : ℤ := 10
  balloonCost : ℤ := 1000
  mailboxPercent : ℤ := 10
  ninjaPercent : ℤ := 10
  alarmPercent : ℤ := 10
  piratePercent : ℤ := 10
  pregnancySeconds : ℤ := 9 * 60 * 60
  childStageSeconds : ℤ := 24 * 60 * 60
  henPerMinute : ℤ := 1
  matingPercent : ℤ := 50
  dinoPercent : ℤ := 10
  saltPercent : ℤ := 10
  frozenSeconds : ℤ := 30 * 60
  firePercent : ℤ := 10
  hourglassPercent : ℤ := 10
  goldenHour : ℤ := 21
  /-- Whether a player seen for the first time is handed a 🎈. -/
  starterBalloon : Bool := true
  /-- Whether a newcomer is told as one. -/
  newcomers : Bool := true
  deriving DecidableEq

structure CommandContext where
  config : AppConfig := {}
  userId : ℤ := 0
  username : Str := []
  accountName : Str := []
  /-- The front end decides both: the chat where the game is played, and who owns the bot. -/
  claimsAllowed : Bool := true
  owner : Bool := false
  /-- Trusted with the quotes. -/
  admin : Bool := false

/-- What a message meets outside: the time, the numbers drawn for it, whether the sentinel takes its
sender and whoever invited him for one person, and which accesses to the files fail. -/
structure Moment where
  now : ℤ
  claim : ClaimDraws := ⟨0, 0⟩
  start : StartDraws := ⟨[], []⟩
  land : LandDraws := ⟨0, 0⟩
  quote : ℕ := 0
  samePerson : Bool := false
  fails : ℕ → Bool := fun _ => false

/-- Something asked of the game: the files it found, and what it answered unless it threw. -/
structure Call where
  before : Files
  op : Op
  reply : Option Reply

structure Desk where
  files : Files
  sentinel : Sentinel
  /-- The sender's key, once he was seen. -/
  bound : Str := []
  /-- How many times the files were opened. -/
  opened : ℕ := 0
  /-- What was asked of the game so far. -/
  calls : List Call := []

/-- The three things a ride to somebody can be, each with its command, and what is burnt. -/
inductive Verb where
  | none
  | raid
  | give
  | throw
  | burn
  deriving DecidableEq, Repr

/-- What a reply tells. -/
inductive Answer where
  | internalError
  | missingUsername
  | blocked (seconds : ℤ)
  /-- An old line: the command that now does what it did. -/
  | instead (line : Str)
  | verbUsage (verb : Verb)
  | usage (command : Command)
  /-- What came of it in the game. -/
  | game (reply : Reply)
  /-- The place is his; with a quote, when there is one. -/
  | entered (result : ClaimResult) (quote : Option Str)
  /-- Not from the road; when he is home, if he is on the way back. -/
  | onTheRoad (left : Option ℤ)
  | wrongAmount
  | wrongSlot (limit : ℕ)
  | bannedQuote
  | notTrusted (command : Command)
  | unknownPlayer (name : Str)
  | debugging (on : Bool)
  | unblocked (player : Str) (wasBlocked : Bool)
  /-- What a command shows that only reads. -/
  | page (command : Command)
  | noPalleThere (amount : ℤ)
  | noPalleToHimself
  | onlyOwnSlots
  | oneEmojiAtATime
  | notThrown (target emoji : Str)
  | notToHimself (verb : Verb)
  | noSlotThere (verb : Verb) (target emoji : Str)
  | nothingThere (emoji : Str)
  | notHimself
  deriving DecidableEq, Repr

section
variable (moment : Moment)

def consult {α : Type} (f : Files → α) : Act Desk α := fun desk =>
  (if moment.fails desk.opened then none else some (f desk.files), { desk with opened := desk.opened + 1 })

/-- Asks the game. What it drew on for too long to see it end counts as an exception. -/
def ask [SlotCodec] [Clock] (op : Op) : Act Desk Reply := fun desk =>
  match if moment.fails desk.opened then none else (step desk.files op).toOption with
  | none =>
    (none, { desk with opened := desk.opened + 1, calls := desk.calls ++ [⟨desk.files, op, none⟩] })
  | some (reply, files) =>
    (some reply,
      { desk with
        files := files, opened := desk.opened + 1, calls := desk.calls ++ [⟨desk.files, op, some reply⟩] })

theorem consult_ok {moment : Moment} {α : Type} {f : Files → α} {desk : Desk} (h : moment.fails desk.opened = false) :
    consult moment f desk = (some (f desk.files), { desk with opened := desk.opened + 1 }) := by
  rw [consult, h]
  rfl

theorem ask_ok [SlotCodec] [Clock] {moment : Moment} {op : Op} {desk : Desk} {reply : Reply} {files : Files}
    (h : moment.fails desk.opened = false) (hstep : step desk.files op = .ok (reply, files)) :
    ask moment op desk =
      (some reply,
        { desk with
          files := files, opened := desk.opened + 1, calls := desk.calls ++ [⟨desk.files, op, some reply⟩] }) := by
  rw [ask, h, hstep]
  rfl

theorem ask_failed [SlotCodec] [Clock] {moment : Moment} {op : Op} {desk : Desk} (h : moment.fails desk.opened = true) :
    ask moment op desk =
      (none, { desk with opened := desk.opened + 1, calls := desk.calls ++ [⟨desk.files, op, none⟩] }) := by
  rw [ask, h]
  rfl

/-- What is asked is answered as the game answers it, or not at all. -/
theorem ask_cases [SlotCodec] [Clock] (op : Op) (desk : Desk) :
    ask moment op desk =
        (none, { desk with opened := desk.opened + 1, calls := desk.calls ++ [⟨desk.files, op, none⟩] }) ∨
      ∃ reply files, step desk.files op = .ok (reply, files) ∧ ask moment op desk =
        (some reply,
          { desk with
            files := files, opened := desk.opened + 1, calls := desk.calls ++ [⟨desk.files, op, some reply⟩] }) := by
  cases hfails : moment.fails desk.opened with
  | true => exact .inl (ask_failed hfails)
  | false =>
    cases hstep : step desk.files op with
    | error failure =>
      left
      rw [ask, hfails, hstep]
      rfl
    | ok result =>
      obtain ⟨reply, files⟩ := result
      exact .inr ⟨reply, files, rfl, ask_ok hfails hstep⟩

end

def boundKey : Act Desk Str := fun desk => (some desk.bound, desk)

def bindKey (key : Str) : Act Desk Unit := fun desk => (some (), { desk with bound := key })

def askSentinel {α : Type} (f : Sentinel → α × Sentinel) : Act Desk α := fun desk =>
  (some (f desk.sentinel).1, { desk with sentinel := (f desk.sentinel).2 })

theorem run_boundKey (desk : Desk) : boundKey desk = (some desk.bound, desk) := rfl

theorem run_askSentinel {α : Type} (f : Sentinel → α × Sentinel) (desk : Desk) :
    askSentinel f desk = (some (f desk.sentinel).1, { desk with sentinel := (f desk.sentinel).2 }) := rfl

def raidRules (config : AppConfig) : RaidRules where
  lootDivisor := config.lootDivisor
  travelDivisor := config.travelDivisor
  furnitureLimit := config.furnitureLimit
  smearedSeconds := config.smearedSeconds
  rocketPercent := config.rocketPercent
  pleadingPercent := config.pleadingPercent
  bombDudPercent := config.bombDudPercent
  dogPercent := config.dogPercent
  mailboxPercent := config.mailboxPercent
  ninjaPercent := config.ninjaPercent
  alarmPercent := config.alarmPercent
  piratePercent := config.piratePercent
  pregnancySeconds := config.pregnancySeconds
  childStageSeconds := config.childStageSeconds
  henPerMinute := config.henPerMinute
  matingPercent := config.matingPercent
  dinoPercent := config.dinoPercent
  saltPercent := config.saltPercent
  frozenSeconds := config.frozenSeconds
  firePercent := config.firePercent
  goldenHour := config.goldenHour

def claimRules (config : AppConfig) : ClaimRules where
  cooldownSeconds := config.cooldownSeconds
  lightning := config.lightningPercent
  ninja := config.ninjaPercent
  hourglass := config.hourglassPercent

/-- The platform a name is written for: Telegram's have an @ in front. -/
def platformOf (target : Str) : RaidTargetKind := if target.head? = some mention then .telegram else .irc

/-- The place itself, written with or without the mention that reaches it on Telegram. -/
def namesThePlace (target : Str) : Bool := Text.equalsIgnoreCase (withoutMention target) (conquisterPlace.drop 1)

def returningIn (state : ConquisterState) (player : Str) (now : ℤ) : Option ℤ :=
  ((raidOf state player).filter fun trip => trip.arrived).map fun trip => max (trip.back - now) 0

/-- Done from home or from the place, and he is on the road. -/
def Reply.turnedAway : Reply → Bool
  | .palleBurn result => result.status = .travelling
  | .burn result => result.status = .travelling
  | .move result => result.status = .notHome
  | .buy result => result.status = .notHome
  | .gear result => result.status = .notHome
  | _ => false

/-- What somebody has under an emoji list: spaces or not between them; nothing if anything else is there. -/
def emojiList (argument : Str) : Option (List Str) :=
  let joined := argument.filter fun character => !isGap character
  if joined = [] then none else Text.emojiSplit joined

def isNameCharacter (character : UInt8) : Bool :=
  Text.isDigit character || (65 ≤ character && character ≤ 90) || (97 ≤ character && character ≤ 122) || character = 95

/-- The text without the @ that would tag somebody: those that start a word, up to its first letter. -/
def stripMentionsFrom (inWord : Bool) : Str → Str
  | [] => []
  | character :: text =>
    if character = mention ∧ ¬ inWord ∧ (text.dropWhile (· = mention)).head?.any isNameCharacter
    then stripMentionsFrom false text
    else character :: stripMentionsFrom (isNameCharacter character) text

def stripMentions (text : Str) : Str := stripMentionsFrom false text

def containsIgnoreCase (text piece : Str) : Bool :=
  piece ≠ [] && text.tails.any fun rest => Text.equalsIgnoreCase (rest.take piece.length) piece

/-- Everybody with a name to be called by, in the order of their keys. -/
def playerNames (state : ConquisterState) : List (Str × Str) :=
  ((firstOf (state.scores.keys ++ state.telegramIds.keys ++ state.displayNames.keys)).mergeSort
    fun one other => one ≤ other).map fun key => (key, displayName state key)

def quoteRandom (quotes : Quotes) (draw : ℕ) : Option Str :=
  if quotes = [] then none else quotes[randomIndex draw quotes.length]?

section
variable (context : CommandContext) (moment : Moment)

/-- What is paid: the list price, or nothing for whoever turned the debug switch on. -/
def price (cost : ℤ) : Act Desk ℤ := do
  let key ← boundKey
  let debugging ← consult moment fun files => decide (counter files.state.debugging key ≠ 0)
  pure (if debugging then 0 else cost)

theorem price_keeps {moment : Moment} {cost price' : ℤ} {desk desk' : Desk}
    (h : price moment cost desk = (some price', desk')) : desk'.files = desk.files ∧ desk'.bound = desk.bound := by
  rw [price, Act.run_bind_some (run_boundKey desk), Act.run_bind] at h
  split at h
  · rename_i free _ hconsult
    cases h
    rw [consult, Prod.mk.injEq] at hconsult
    rw [← hconsult.2]
    exact ⟨rfl, rfl⟩
  · cases h

/-- On the road only the way back is open: how to take it, or when it ends for whoever is on it. -/
def tell (reply : Reply) : Act Desk Answer :=
  if reply.turnedAway then do
    let key ← boundKey
    let left ← consult moment fun files => returningIn files.state key moment.now
    pure (.onTheRoad left)
  else pure (.game reply)

/-- The player a command asks about: the sender when nobody is named, else the one named. -/
def showPlayer (command : Command) (argument : Str) : Act Desk Answer :=
  let wanted := Text.trim argument
  if wanted = [] then
    if context.username = [] then pure .missingUsername
    else do
      consult moment fun _ => ()
      pure (.page command)
  else do
    let known ← consult moment fun files =>
      (playerByName files.state (withoutMention wanted) (platformOf wanted)).isSome
    pure (if known then .page command else .unknownPlayer wanted)

/-- The owner is an admin with more powers. -/
def trusted : Bool := context.owner || context.admin

def handleLeaderboard : Act Desk Answer := do
  consult moment fun _ => ()
  pure (.page .leaderboard)

def handleEmojiHelp (argument : Str) : Act Desk Answer :=
  if Text.trim argument ≠ [] ∧ (Text.emojiSplit (Text.trim argument)).isNone then pure (.usage .emoji)
  else pure (.page .emoji)

def handleQuotes : Act Desk Answer :=
  if ¬ trusted context then pure (.notTrusted .quotes)
  else do
    consult moment fun _ => ()
    pure (.page .quotes)

/-- "/back" and a good "/move" are expanded before they get here: only what cannot be is left. -/
def handleHome : Act Desk Answer := pure .missingUsername

def handleUnblock (argument : Str) : Act Desk Answer :=
  if ¬ context.owner then pure (.notTrusted .unblock)
  else
    let wanted := withoutMention argument
    if wanted = [] then pure (.usage .unblock)
    else do
      let names ← consult moment fun files => playerNames files.state
      match names.find? fun entry =>
          Text.equalsIgnoreCase entry.2 wanted || Text.equalsIgnoreCase entry.1 wanted with
      | none => pure (.unknownPlayer wanted)
      | some entry => do
        let wasBlocked ← askSentinel fun sentinel => sentinel.unblock entry.1
        pure (.unblocked entry.2 wasBlocked)

variable [SlotCodec] [Clock]

def handleRaid (target : Str) (gift : ℤ) (giftEmoji : Str) (intact : Bool) : Act Desk Answer :=
  if context.username = [] then pure .missingUsername
  else do
    let key ← boundKey
    let reply ← ask moment (.raidStart context.userId key moment.now (raidRules context.config)
      { target := withoutMention target, kind := platformOf target, gift := gift, giftEmoji := giftEmoji
        intact := intact } moment.start)
    pure (.game reply)

/-- "/burn numero": the palle leave the game. -/
def handleBurn (amount : ℤ) : Act Desk Answer :=
  if context.username = [] then pure .missingUsername
  else do
    let key ← boundKey
    let reply ← ask moment (.palleBurn key amount)
    tell moment reply

def handleFurnitureMove (request : ParsedMove) : Act Desk Answer := do
  let key ← boundKey
  let reply ← ask moment (.move key request.source request.destination context.config.furnitureLimit moment.now)
  tell moment reply

/-- One that is thrown lands on whoever holds the place; destroyed, it hits nobody. -/
def handleEmojiBurn (emoji : Str) (destroy : Bool) : Act Desk Answer :=
  if context.username = [] then pure .missingUsername
  else do
    let key ← boundKey
    let reply ← ask moment (.burn key emoji moment.now (raidRules context.config) destroy moment.land)
    tell moment reply

/-- The palle travel with him and change hands when he arrives. -/
def handleGift (request : ParsedAmount) : Act Desk Answer :=
  if context.username = [] then pure .missingUsername
  else if request.amount ≤ 0 then pure .wrongAmount
  else handleRaid context moment request.target request.amount [] false

/-- What entering the place is told with: how everybody looks, and a quote that may fail to be there. -/
def tellClaim (result : ClaimResult) : Act Desk Answer :=
  if result.status ∈ [ClaimStatus.frozen, .travelling, .cooldown, .alreadyHeld] then pure (.game (.claim result))
  else do
    consult moment fun _ => ()
    if result.status = .defended then pure (.game (.claim result))
    else do
      let quote ← (consult moment fun files => quoteRandom files.quotes moment.quote).caught none
      pure (.entered result quote)

def handleClaim : Act Desk Answer :=
  if context.username = [] then pure .missingUsername
  else do
    let key ← boundKey
    let reply ← ask moment (.claim context.userId key moment.now (claimRules context.config) moment.claim)
    match reply with
    | .claim result => tellClaim moment result
    | other => pure (.game other)

def handleAddQuote (argument : Str) : Act Desk Answer :=
  if context.username = [] then pure .missingUsername
  else do
    let cost ← price moment context.config.quoteCost
    if argument = [] then pure (.usage .addQuote)
    else
      let quote := stripMentions argument
      if context.config.quoteBanned.any fun piece => containsIgnoreCase quote piece then pure .bannedQuote
      else do
        let key ← boundKey
        let reply ← ask moment (.quoteAdd key quote cost)
        pure (.game reply)

/-- The ☢️ and the 🎈 have prices of their own, which do not grow with the copies in the game. -/
def fixedPrice (config : AppConfig) (emoji : Str) : Option ℤ :=
  if isPower emoji .nuke then some config.nukeCost
  else if isPower emoji .balloon then some config.balloonCost
  else none

/-- One emoji in one slot, the first empty one when no slot is named. -/
def handleFurniture (wanted : Str) (slot : Option ℤ) : Act Desk Answer :=
  if context.username = [] then pure .missingUsername
  else do
    let fixed := fixedPrice context.config wanted
    let cost ← price moment (fixed.getD context.config.furnitureCost)
    if slot.any fun slot => slot < 1 || (context.config.furnitureLimit : ℤ) < slot then
      pure (.wrongSlot context.config.furnitureLimit)
    else do
      let key ← boundKey
      let reply ← ask moment (.buy key wanted (slot.getD 0) cost context.config.furnitureLimit moment.now
        (if fixed.isSome then 0 else context.config.furnitureInflation))
      tell moment reply

/-- One from the house goes on him, the second, if named, back in the house to make room. -/
def handleTake (argument : Str) : Act Desk Answer :=
  if context.username = [] then pure .missingUsername
  else
    match emojiList argument with
    | some [emoji] => do
      let key ← boundKey
      let reply ← ask moment (.take key emoji [] moment.now)
      tell moment reply
    | some [emoji, swap] => do
      let key ← boundKey
      let reply ← ask moment (.take key emoji swap moment.now)
      tell moment reply
    | _ => pure (.usage .take)

/-- One he has on him goes back in the house. -/
def handleStore (argument : Str) : Act Desk Answer :=
  if context.username = [] then pure .missingUsername
  else
    match emojiList argument with
    | some [emoji] => do
      let key ← boundKey
      let reply ← ask moment (.store key emoji context.config.furnitureLimit moment.now)
      tell moment reply
    | _ => pure (.usage .store)

def handleDeleteQuote (argument : Str) : Act Desk Answer :=
  if ¬ trusted context then pure (.notTrusted .deleteQuote)
  else if argument = [] then pure (.usage .deleteQuote)
  else do
    let reply ← ask moment (.quoteDelete argument)
    pure (.game reply)

def handleDebug (argument : Str) : Act Desk Answer :=
  if ¬ context.owner then pure (.notTrusted .debug)
  else
    let wanted := Text.trim argument
    if wanted ≠ utf8 "0" ∧ wanted ≠ utf8 "1" then do
      let key ← boundKey
      let on ← consult moment fun files => decide (counter files.state.debugging key ≠ 0)
      pure (.debugging on)
    else do
      let key ← boundKey
      let reply ← ask moment (.debug key (wanted = utf8 "1"))
      pure (.game reply)

/-- What is written after /link: a nick on Telegram, a name with its @ on IRC. -/
def linkName (telegram : Bool) (argument : Str) : Option Str :=
  if argument.any isBlank then none
  else if telegram then (if argument ≠ [] ∧ argument.head? ≠ some mention then some argument else none)
  else (if argument.head? = some mention ∧ argument.length > 1 then some (argument.drop 1) else none)

def handleLink (argument : Str) : Act Desk Answer :=
  if context.username = [] then pure .missingUsername
  else
    match linkName (context.userId ≠ 0) argument with
    | none => pure (.usage .link)
    | some other => do
      let reply ← ask moment (.link context.userId context.username other context.accountName)
      pure (.game reply)

/-- A newcomer names who brought him into the game. -/
def handleInvitedBy (argument : Str) : Act Desk Answer :=
  if context.username = [] then pure .missingUsername
  else if argument = [] then pure (.usage .invitedBy)
  else do
    let key ← boundKey
    let reply ← ask moment (.invite key (withoutMention argument) (platformOf argument) moment.now)
    pure (.game reply)

def Command.handler (command : Command) (argument : Str) : Act Desk Answer :=
  match command with
  | .leaderboard => handleLeaderboard moment
  | .help => pure (.page .help)
  | .emoji => handleEmojiHelp argument
  | .profile => showPlayer context moment .profile argument
  | .addQuote => handleAddQuote context moment argument
  | .link => handleLink context moment argument
  | .quotes => handleQuotes context moment
  | .deleteQuote => handleDeleteQuote context moment argument
  | .debug => handleDebug context moment argument
  | .buy => pure (.usage .buy)
  | .raid => pure (.verbUsage .raid)
  | .give => pure (.verbUsage .give)
  | .throw => pure (.verbUsage .throw)
  | .burn => pure (.verbUsage .burn)
  | .home => handleHome
  | .house => showPlayer context moment .house argument
  | .move => pure (.usage .move)
  | .take => handleTake context moment argument
  | .store => handleStore context moment argument
  | .unblock => handleUnblock context moment argument
  | .invitedBy => handleInvitedBy context moment argument

end

end NorelecBot
