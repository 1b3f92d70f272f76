import NorelecBot.Commands
import NorelecBot.Runs

/-! # From a message to its reply

What is written is expanded to the line it stands for, then read by one grammar
after another. Whoever the sentinel blocked is turned away before; whoever was
answered may be paid for an invite, or shown what to try, after.
-/

namespace NorelecBot
open Lib

/-- How commands are typed where he is: the slash belongs to the client on IRC. -/
def commandPrefix (context : CommandContext) : Str := if context.userId = 0 then utf8 "!" else utf8 "/"

/-- His own name as he writes it after "We": with the mention on Telegram, bare on IRC. -/
def ownName (context : CommandContext) : Str :=
  (if context.userId ≠ 0 then [mention] else []) ++ context.username

def twoSlots (argument : Str) : Bool :=
  (atFirstGap argument).any fun slots =>
    (Text.parseInt64 slots.1).isSome && (Text.parseInt64 (Text.trim slots.2)).isSome

/-- "/buy emoji [position]", "/back" and "/move from to" are other ways to write a line on one's own name. -/
def expandBuy (context : CommandContext) (message : Str) : Str :=
  let command := parseCommand message
  if context.username = [] then message
  else if command.name = backCommand then raidTrigger ++ ownName context
  else if command.name = moveCommand ∧ twoSlots command.argument then
    raidTrigger ++ ownName context ++ utf8 " " ++ command.argument
  else if command.name ≠ buyCommand ∨ command.argument = [] then message
  else raidTrigger ++ ownName context ++ utf8 " " ++ command.argument

structure Verbed where
  verb : Verb := .none
  message : Str
  deriving DecidableEq

def verbOf (name : Str) : Verb :=
  if name = Command.raid.name then .raid
  else if name = Command.give.name then .give
  else if name = Command.throw.name then .throw
  else if name = Command.burn.name then .burn
  else .none

/-- Bare, a verb is left to its command. What is burnt goes back where it came from, the place. -/
def expandVerb (message : Str) : Verbed :=
  let command := parseCommand message
  let verb := verbOf command.name
  if verb = .none ∨ command.argument = [] then ⟨.none, message⟩
  else if verb = .burn then ⟨verb, conquisterTrigger ++ utf8 " " ++ command.argument⟩
  else ⟨verb, raidTrigger ++ command.argument⟩

/-- The line a text stands for, and the verb it came with. -/
def expanded (context : CommandContext) (text : Str) : Verbed :=
  expandVerb (expandBuy context (expandAdventure (Text.trim text)))

section
variable (context : CommandContext) (moment : Moment)

/-- Whether a name written after "We" is the sender himself. -/
def namesMe (target : Str) : Act Desk Bool := do
  let key ← boundKey
  if key = [] then pure false
  else consult moment fun files => namesPlayer files.state key (withoutMention target) (platformOf target)

variable [SlotCodec] [Clock]

/-- What the sender is seen with: no room at all is how nobody is handed a 🎈, and with no time nobody is
told as a newcomer. -/
def seenOp : Op :=
  .seen context.userId context.username context.accountName
    (if context.config.starterBalloon then context.config.furnitureLimit else 0)
    (if context.config.newcomers then moment.now else 0)

def senderKey (state : ConquisterState) : Str := keyFor state context.userId context.username context.accountName

def seenState (state : ConquisterState) : ConquisterState :=
  (playerSeen state context.userId context.username context.accountName
    (if context.config.starterBalloon then context.config.furnitureLimit else 0)
    (if context.config.newcomers then moment.now else 0)).2

def rememberSender : Act Desk Unit :=
  if context.username = [] then pure ()
  else do
    let reply ← ask moment (seenOp context moment)
    match reply with
    | .seen key => bindKey key
    | _ => pure ()

def seenDesk (desk : Desk) : Desk :=
  { desk with
    files := { desk.files with state := seenState context moment desk.files.state }
    bound := senderKey context desk.files.state
    opened := desk.opened + 1
    calls := desk.calls ++ [⟨desk.files, seenOp context moment, some (.seen (senderKey context desk.files.state))⟩] }

variable {context moment}

theorem rememberSender_ok {desk : Desk} (hname : context.username ≠ []) (h : moment.fails desk.opened = false) :
    rememberSender context moment desk = (some (), seenDesk context moment desk) := by
  have hseen : step desk.files (seenOp context moment) =
      .ok (.seen (senderKey context desk.files.state),
        { desk.files with state := seenState context moment desk.files.state }) := rfl
  rw [rememberSender, if_neg hname]
  exact Act.run_bind_some (ask_ok h hseen)

theorem rememberSender_failed {desk : Desk} (hname : context.username ≠ []) (h : moment.fails desk.opened = true) :
    rememberSender context moment desk =
      (none, { desk with
        opened := desk.opened + 1, calls := desk.calls ++ [⟨desk.files, seenOp context moment, none⟩] }) := by
  rw [rememberSender, if_neg hname]
  exact Act.run_bind_none (ask_failed h)

variable (context moment)

/-- Whether the sentinel has a say on the message. -/
def guarded (text : Str) : Bool :=
  !context.owner && context.username ≠ [] && commandIsForBot text &&
    (parseCommand (expanded context text).message).name ≠ Command.unblock.name

/-- A player the sentinel blocked is told so, once an hour, and nothing he asks is done. -/
def turnAway (text : Str) : Act Desk (Option (Option Answer)) :=
  if guarded context text then do
    rememberSender context moment
    let key ← boundKey
    let kept ← askSentinel fun sentinel => (sentinel.blockedUntil key moment.now, sentinel)
    if kept > 0 then do
      let told ← askSentinel fun sentinel => sentinel.tellBlocked key moment.now
      pure (some (if told then some (.blocked (kept - moment.now)) else none))
    else pure none
  else pure none

/-- The command that now does what an old "We name ..." line did; nothing for any other line. -/
def oldLineInstead (text : Str) : Act Desk (Option Str) :=
  let old := expandAdventure (Text.trim text)
  let slash := commandPrefix context
  if !raidTrigger.isPrefixOf old || old = conquisterTrigger then pure none
  else match amountTarget old with
    | some transfer =>
      pure (some (if namesThePlace transfer.target then slash ++ utf8 "burn " ++ decimal transfer.amount
        else slash ++ utf8 "give " ++ transfer.target ++ utf8 " " ++ decimal transfer.amount))
    | none => match slotMove old with
      | some move =>
        pure (some (slash ++ utf8 "move " ++ decimal move.source ++ utf8 " " ++ decimal move.destination))
      | none => match emojiTarget old with
        | some carried =>
          if namesThePlace carried.target then
            pure (some (if isThrown carried.emoji
              then slash ++ utf8 "throw " ++ conquisterPlace ++ utf8 " " ++ carried.emoji
              else slash ++ utf8 "burn " ++ carried.emoji))
          else do
            rememberSender context moment
            let me ← namesMe moment carried.target
            if me then
              pure (some (slash ++ utf8 "buy " ++ carried.emoji ++
                (carried.position.elim [] fun position => utf8 " " ++ decimal position)))
            else
              pure (some (slash ++ utf8 (if isThrown carried.emoji then "throw" else "give") ++ utf8 " " ++
                carried.target ++ utf8 " " ++ carried.emoji))
        | none =>
          if raidTarget old = [] then pure none
          else do
            rememberSender context moment
            let me ← namesMe moment (raidTarget old)
            pure (some (if me then slash ++ utf8 "back" else slash ++ utf8 "raid " ++ raidTarget old))

/-- "We @TheConquister37": the one old line that is left. -/
def enterLine (verb : Verb) : Act Desk (Option Answer) :=
  if ¬ context.claimsAllowed then pure none
  else if verb ≠ .none then pure (some (.verbUsage verb))
  else do
    rememberSender context moment
    let answer ← handleClaim context moment
    pure (some answer)

/-- Nothing is brought to the place any more: palle are burnt there. -/
def amountLine (verb : Verb) (transfer : ParsedAmount) : Act Desk (Option Answer) :=
  if ¬ context.claimsAllowed then pure none
  else if verb = .raid ∨ verb = .throw then pure (some (.verbUsage verb))
  else do
    rememberSender context moment
    if namesThePlace transfer.target then
      if verb ≠ .burn then pure (some (.noPalleThere transfer.amount))
      else do
        let answer ← handleBurn context moment transfer.amount
        pure (some answer)
    else do
      let me ← namesMe moment transfer.target
      if me then pure (some .noPalleToHimself)
      else do
        let answer ← handleGift context moment transfer
        pure (some answer)

def moveLine (verb : Verb) (request : ParsedMove) : Act Desk (Option Answer) :=
  if ¬ context.claimsAllowed then pure none
  else if verb ≠ .none then pure (some (.verbUsage verb))
  else do
    rememberSender context moment
    if context.username = [] then pure (some .missingUsername)
    else do
      let me ← namesMe moment request.target
      if ¬ me then pure (some .onlyOwnSlots)
      else do
        let answer ← handleFurnitureMove context moment request
        pure (some answer)

def emojiErrand (verb : Verb) (carried : ParsedEmoji) (me : Bool) : Act Desk Answer :=
  if me then
    if verb ≠ .none then pure (.notToHimself verb)
    else handleFurniture context moment carried.emoji carried.position
  -- the slot is his choice only on his own name
  else if carried.position.isSome then pure (.noSlotThere verb carried.target carried.emoji)
  else if namesThePlace carried.target then
    if verb = .burn then handleEmojiBurn context moment carried.emoji true
    else if verb = .give ∨ ¬ isThrown carried.emoji then pure (.nothingThere carried.emoji)
    else handleEmojiBurn context moment carried.emoji false
  else handleRaid context moment carried.target 0 carried.emoji (verb = .give)

def emojiLine (verb : Verb) (carried : ParsedEmoji) : Act Desk (Option Answer) :=
  if ¬ context.claimsAllowed then pure none
  else if verb = .raid then pure (some (.verbUsage verb))
  else do
    rememberSender context moment
    if Text.emojiCount carried.emoji ≠ some 1 then pure (some .oneEmojiAtATime)
    else if verb = .throw ∧ ¬ isThrown carried.emoji then pure (some (.notThrown carried.target carried.emoji))
    else do
      let me ← namesMe moment carried.target
      let answer ← emojiErrand context moment verb carried me
      pure (some answer)

def raidLine (verb : Verb) (target : Str) : Act Desk (Option Answer) :=
  if ¬ context.claimsAllowed then pure none
  else if verb ≠ .none ∧ verb ≠ .raid then pure (some (.verbUsage verb))
  else do
    rememberSender context moment
    -- only a ride asked for as one is held back from his own house: the other is the way home
    let me ← (if verb = .raid then namesMe moment target else pure false)
    if me then pure (some .notHimself)
    else do
      let answer ← handleRaid context moment target 0 [] false
      pure (some answer)

def commandLine (command : Command) (argument : Str) : Act Desk (Option Answer) := do
  rememberSender context moment
  let answer ← command.handler context moment argument
  pure (some answer)

def carryOut (line : Verbed) : Act Desk (Option Answer) :=
  if line.message = conquisterTrigger then enterLine context moment line.verb
  else match amountTarget line.message with
    | some transfer => amountLine context moment line.verb transfer
    | none => match slotMove line.message with
      | some move => moveLine context moment line.verb move
      | none => match emojiTarget line.message with
        | some carried => emojiLine context moment line.verb carried
        | none =>
          if raidTarget line.message ≠ [] then raidLine context moment line.verb (raidTarget line.message)
          else if line.verb ≠ .none then pure (some (.verbUsage line.verb))
          else if line.message = [] then pure none
          else match findCommand (parseCommand line.message).name with
            | none => pure none
            | some command => commandLine context moment command (parseCommand line.message).argument

/-- What a text is answered with, unless something throws. -/
def respond (text : Str) : Act Desk (Option Answer) := do
  let refused ← turnAway context moment text
  match refused with
  | some reply => pure reply
  | none => do
    let instead ← oldLineInstead context moment text
    match instead with
    | some line => pure (if context.claimsAllowed then some (.instead line) else none)
    | none => carryOut context moment (expanded context text)

def dispatch (text : Str) : Act Desk (Option Answer) := (respond context moment text).caught (some .internalError)

structure Spoken where
  answer : Answer
  reward : Option InviteReward := none
  guide : Bool := false
  deriving DecidableEq, Repr

/-- A newcomer who played his days pays off whoever brought him; nothing when that throws. -/
def payInvite (seen : Str) : Act Desk (Option (Option InviteReward)) :=
  Act.caught
    (do
      let reply ← ask moment (.reward seen moment.samePerson)
      match reply with
      | .reward reward => pure (some reward)
      | _ => pure none)
    none

/-- He is shown what to try the first time. -/
def showGuide (seen : Str) : Act Desk Bool :=
  Act.caught
    (do
      let reply ← ask moment (.guide seen)
      match reply with
      | .guide wanted => pure wanted
      | _ => pure false)
    false

def afterReply (seen : Str) (answer : Answer) : Act Desk Spoken := do
  let paid ← payInvite moment seen
  match paid with
  | none => pure { answer := answer }
  | some reward => do
    let guide ← showGuide moment seen
    pure { answer := answer, reward := reward, guide := guide }

def commandDispatch (text : Str) : Act Desk (Option Spoken) := do
  let answer ← dispatch context moment text
  let seen ← boundKey
  match answer with
  | none => pure none
  | some answer =>
    if seen = [] ∨ ¬ context.claimsAllowed then pure (some { answer := answer })
    else do
      let spoken ← afterReply moment seen answer
      pure (some spoken)

end

structure Bot where
  files : Files := {}
  sentinel : Sentinel := {}

structure Message where
  context : CommandContext
  moment : Moment
  text : Str

def Bot.desk (bot : Bot) : Desk := { files := bot.files, sentinel := bot.sentinel }

section
variable [SlotCodec] [Clock]

/-- How a message ends: what is said, and the desk it leaves. -/
def Bot.hear (bot : Bot) (message : Message) : Option Spoken × Desk :=
  match commandDispatch message.context message.moment message.text bot.desk with
  | (spoken, desk) => (spoken.join, desk)

/-- What happens to the bot: a message, a round of the rides, a start, a report of the sentinel. -/
inductive Event where
  | message (message : Message)
  | raidDue (now : ℤ) (rules : RaidRules) (draws : DueDraws)
  | handOut (furnitureLimit : ℕ)
  | sortOut
  | block (player : Str) (until' : ℤ)

def Bot.after (bot : Bot) : Event → Bot
  | .message message => { files := (bot.hear message).2.files, sentinel := (bot.hear message).2.sentinel }
  | .raidDue now rules draws => { bot with files := bot.files.after (.raidDue now rules draws) }
  | .handOut furnitureLimit => { bot with files := bot.files.after (.handOut furnitureLimit) }
  | .sortOut => { bot with files := bot.files.after .sortOut }
  | .block player until' => { bot with sentinel := bot.sentinel.block player until' }

def Bot.run (bot : Bot) (events : List Event) : Bot := events.foldl Bot.after bot

end

end NorelecBot
