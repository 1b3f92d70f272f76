import NorelecBot.Powers

/-! # What a line asks for

A line is the claim of the place, a "We name ..." line of one of four shapes, or
a command. Nothing here looks at the game: what a line asks for is told from its
bytes alone.
-/

namespace NorelecBot

def conquisterPlace : Str := utf8 "@TheConquister37"
def conquisterTrigger : Str := utf8 "We @TheConquister37"
/-- "We @someone" names a Telegram player; "We someone" names an IRC player. -/
def raidTrigger : Str := utf8 "We "

/-- What ends a word: the characters of " \t\r\n". -/
def isBlank (character : UInt8) : Bool :=
  character = 32 || character = 9 || character = 13 || character = 10

/-- What stands between two words after a name: the characters of " \t". -/
def isGap (character : UInt8) : Bool := character = 32 || character = 9

/-- The `@` that a name on Telegram is written with. -/
def mention : UInt8 := 64

def withoutMention (target : Str) : Str := if target.head? = some mention then target.drop 1 else target

def validRaidTarget (target : Str) : Bool :=
  target ≠ [] && target ≠ [mention] && !target.any isBlank && mention ∉ withoutMention target

/-- The rest of a "We " line, if it is one. -/
def afterRaidTrigger (message : Str) : Option Str :=
  if raidTrigger.isPrefixOf message then some (message.drop raidTrigger.length) else none

/-- The name after "We ", including its optional Telegram @, or nothing if invalid. -/
def raidTarget (message : Str) : Str :=
  if message = conquisterTrigger then []
  else match afterRaidTrigger message with
    | some target => if validRaidTarget target then target else []
    | none => []

/-- A "We " line cut after the name: the name, and what follows it from the blank on. -/
def targetAndRest (message : Str) : Option (Str × Str) :=
  (afterRaidTrigger message).bind fun rest =>
    let target := rest.takeWhile fun character => !isBlank character
    if rest.any isBlank && validRaidTarget target then some (target, rest.drop target.length) else none

structure ParsedAmount where
  target : Str
  amount : ℤ
  deriving DecidableEq

def amountTarget (message : Str) : Option ParsedAmount :=
  (targetAndRest message).bind fun parts => (Text.parseInt64 parts.2).map fun amount => ⟨parts.1, amount⟩

def atLastGap (text : Str) : Option (Str × Str) :=
  if text.any isGap then
    let word := (text.reverse.takeWhile fun character => !isGap character).reverse
    some (text.take (text.length - word.length - 1), word)
  else none

def atFirstGap (text : Str) : Option (Str × Str) :=
  if text.any isGap then
    let word := text.takeWhile fun character => !isGap character
    some (word, text.drop (word.length + 1))
  else none

structure ParsedEmoji where
  target : Str
  emoji : Str
  /-- A slot, written after the emoji: only for his own name. -/
  position : Option ℤ := none
  deriving DecidableEq

def slotAtEnd (text : Str) : Str × Option ℤ :=
  match atLastGap text with
  | none => (text, none)
  | some (before, word) =>
    match Text.parseInt64 word with
    | some position => (Text.trim before, some position)
    | none => (text, none)

def emojiTarget (message : Str) : Option ParsedEmoji :=
  (targetAndRest message).bind fun parts =>
    let (emoji, position) := slotAtEnd (Text.trim parts.2)
    if (Text.parseInt64 emoji).isSome || (Text.emojiCount emoji).isNone then none
    else some ⟨parts.1, emoji, position⟩

structure ParsedMove where
  target : Str
  source : ℤ
  destination : ℤ
  deriving DecidableEq

/-- "We name from to": two slots on his own name whose emoji change places. -/
def slotMove (message : Str) : Option ParsedMove :=
  (targetAndRest message).bind fun parts =>
    (atFirstGap (Text.trim parts.2)).bind fun slots =>
      (Text.parseInt64 slots.1).bind fun source =>
        (Text.parseInt64 slots.2).map fun destination => ⟨parts.1, source, destination⟩

structure ParsedCommand where
  name : Str
  argument : Str
  deriving DecidableEq

/-- The first word, up to its @ and in lower case, and the rest. -/
def parseCommand (message : Str) : ParsedCommand :=
  let word := message.takeWhile fun character => !isBlank character
  { name := (word.takeWhile fun character => character ≠ mention).map Text.toLower
    argument := Text.trim (message.drop word.length) }

def adventureCommand : Str := utf8 "/avventura"
def buyCommand : Str := utf8 "/buy"
def backCommand : Str := utf8 "/back"
def moveCommand : Str := utf8 "/move"

/-- "/avventura" is another way to write "We @TheConquister37", with whatever follows it. -/
def expandAdventure (message : Str) : Str :=
  let command := parseCommand message
  if command.name ≠ adventureCommand then message
  else if command.argument = [] then conquisterTrigger
  else conquisterTrigger ++ utf8 " " ++ command.argument

/-- The commands that have a handler, in the order they are looked up. -/
inductive Command where
  | leaderboard | help | emoji | profile | addQuote | link | quotes | deleteQuote | debug | buy | raid | give
  | throw | burn | home | house | move | take | store | unblock | invitedBy
  deriving DecidableEq, Repr

def Command.name : Command → Str
  | leaderboard => utf8 "/leaderboard"
  | help => utf8 "/help"
  | emoji => utf8 "/emoji"
  | profile => utf8 "/profile"
  | addQuote => utf8 "/addquote"
  | link => utf8 "/link"
  | quotes => utf8 "/quotes"
  | deleteQuote => utf8 "/delquote"
  | debug => utf8 "/debug"
  | buy => buyCommand
  | raid => utf8 "/raid"
  | give => utf8 "/give"
  | throw => utf8 "/throw"
  | burn => utf8 "/burn"
  | home => backCommand
  | house => utf8 "/house"
  | move => moveCommand
  | take => utf8 "/take"
  | store => utf8 "/store"
  | unblock => utf8 "/unblock"
  | invitedBy => utf8 "/invitedby"

def commands : List Command :=
  [.leaderboard, .help, .emoji, .profile, .addQuote, .link, .quotes, .deleteQuote, .debug, .buy, .raid, .give,
    .throw, .burn, .home, .house, .move, .take, .store, .unblock, .invitedBy]

def findCommand (name : Str) : Option Command := commands.find? fun command => command.name = name

/-- Whether the text is a claim or a known command, without running it. -/
def commandIsForBot (text : Str) : Bool :=
  let message := expandAdventure (Text.trim text)
  message = conquisterTrigger || raidTarget message ≠ [] || (amountTarget message).isSome ||
    (emojiTarget message).isSome || (slotMove message).isSome ||
    (message ≠ [] && (findCommand (parseCommand message).name).isSome)

example : commandIsForBot (utf8 " /Avventura@norelecbot 🍕 ") = true := by decide +kernel
example : emojiTarget (utf8 "We @ada 🍕 3") = some ⟨utf8 "@ada", utf8 "🍕", some 3⟩ := by decide +kernel

end NorelecBot
