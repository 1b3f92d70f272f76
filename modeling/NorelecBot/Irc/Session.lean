import NorelecBot.Grammar
import NorelecBot.Irc.Protocol

/-! # The protocol side of the bot

A session turns the messages that come in into the lines to send back. A command
is answered once WHOIS says that its nick is identified; the answer is kept for a
while, and what comes in before it waits.

What a message leads to is told as deeds, in order: a line that is always the
same, something said in the channel, a command handed to whoever answers it. Only
`perform` asks him, and makes lines of them all.
-/

namespace NorelecBot.Irc
open Lib

structure SessionConfig where
  nick : Str
  user : Str := []
  realname : Str := []
  nickservPassword : Str := []
  channel : Str
  /-- Marks every line the bot says here. -/
  noForwardPrefix : Str := []
  ownerNick : Str := []
  registrationSeconds : ℤ := 300
  whoisSeconds : ℤ := 10

structure Call where
  nick : Str
  account : Str
  owner : Bool
  text : Str
  deriving DecidableEq

structure Registration where
  registered : Bool := false
  account : Str := []
  expires : ℤ := 0
  told : ℤ := 0
  deriving DecidableEq

structure Waiting where
  nick : Str
  text : Str
  deadline : ℤ := 0
  deriving DecidableEq

/-- What has arrived of a WHOIS in flight. -/
structure Identity where
  registered : Bool := false
  account : Str := []
  deriving DecidableEq

inductive Deed where
  | line (text : Str)
  | say (text : Str)
  | answer (call : Call)
  deriving DecidableEq

structure Session where
  nick : Str
  joined : Bool := false
  registrations : OrderedMap Str Registration := .empty
  asked : OrderedMap Str Identity := .empty
  waiting : List Waiting := []

variable (config : SessionConfig)

def Session.start : Session := { nick := config.nick }

/-- The bytes left for a part once the mark is there, as `std::size_t` subtracts them. -/
def roomFor : ℕ := (maxTextBytes + 2 ^ 64 - config.noForwardPrefix.length) % 2 ^ 64

/-- Marked for the bridge: whatever the bot says here, it says on Telegram itself. -/
def say (text : Str) : List Str :=
  (splitText text (roomFor config)).map fun part =>
    commandLine (utf8 "PRIVMSG") [config.channel] (some (config.noForwardPrefix ++ part))

def announce (text : Str) : List Str := say config text

/-- Answers a player who is registered, or nothing; it may remember what it was asked. -/
abbrev Responder (ρ : Type) := Call → ρ → Option Str × ρ

def linesOf {ρ : Type} (responder : Responder ρ) (memory : ρ) : Deed → List Str × ρ
  | .line text => ([text], memory)
  | .say text => (say config text, memory)
  | .answer call =>
    match responder call memory with
    | (some reply, memory) => (say config reply, memory)
    | (none, memory) => ([], memory)

/-- The lines of what a message leads to, with the responder asked in that order. -/
def perform {ρ : Type} (responder : Responder ρ) : List Deed → ρ → List Str × ρ
  | [], memory => ([], memory)
  | deed :: deeds, memory =>
    let (lines, memory) := linesOf config responder memory deed
    let (others, memory) := perform responder deeds memory
    (lines ++ others, memory)

/-- On IRC a leading slash belongs to the client, so the commands are typed with an exclamation mark. -/
def withSlash : Str → Str
  | 33 :: text => 47 :: text
  | text => text

def unregisteredReply (nick : Str) : Str :=
  nick ++ utf8 " per giocare serve un nick registrato e identificato con NickServ."

/-- What the responder is called with for a line of that nick. -/
def callFor (nick account text : Str) : Call where
  nick := nick
  account := account
  owner := config.ownerNick ≠ [] && sameName nick config.ownerNick
  text := withSlash text

def answer (nick account text : Str) : Deed := .answer (callFor config nick account text)

/-- The answer of a WHOIS, kept from now on; whether somebody was already told is kept with it. -/
def registrationOf (session : Session) (lowered : Str) (registered : Bool) (account : Str) (now : ℤ) :
    Registration :=
  { registered := registered
    account := if account = [] then lowered else account
    expires := now + config.registrationSeconds
    told := ((session.registrations.find lowered).getD {}).told }

/-- What waits for the answer, one line after the other: answered when the nick is identified, else
told so, once in a while. -/
def releaseEach (lowered : Str) (now : ℤ) : Registration → List Waiting → Registration × List Deed
  | entry, [] => (entry, [])
  | entry, waiting :: others =>
    if lowerName waiting.nick ≠ lowered then releaseEach lowered now entry others
    else if entry.registered then
      let (entry', deeds) := releaseEach lowered now entry others
      (entry', answer config waiting.nick entry.account waiting.text :: deeds)
    else if entry.told + config.registrationSeconds ≤ now then
      let (entry', deeds) := releaseEach lowered now { entry with told := now } others
      (entry', .say (unregisteredReply waiting.nick) :: deeds)
    else releaseEach lowered now entry others

def release (session : Session) (lowered : Str) (registered : Bool) (account : Str) (now : ℤ) :
    Session × List Deed :=
  let (entry, deeds) :=
    releaseEach config lowered now (registrationOf config session lowered registered account now) session.waiting
  ({ session with
      registrations := session.registrations.set lowered entry
      waiting := session.waiting.filter fun waiting => lowerName waiting.nick ≠ lowered }, deeds)

/-- A line for the bot: answered from what is kept, or put aside until WHOIS answers. -/
def handleCommand (session : Session) (sender text : Str) (now : ℤ) : Session × List Deed :=
  let lowered := lowerName sender
  match (session.registrations.find lowered).filter fun known => now < known.expires with
  | some known =>
    if known.registered then (session, [answer config sender known.account text])
    else if known.told + config.registrationSeconds ≤ now then
      ({ session with registrations := session.registrations.set lowered { known with told := now } },
        [.say (unregisteredReply sender)])
    else (session, [])
  | none =>
    let queued := { session with
      waiting := session.waiting ++ [{ nick := sender, text := text, deadline := now + config.whoisSeconds }] }
    if (session.asked.find lowered).isSome then (queued, [])
    else ({ queued with asked := session.asked.set lowered {} },
      [.line (commandLine (utf8 "WHOIS") [sender] none)])

def handlePrivmsg (session : Session) (message : Message) (now : ℤ) : Session × List Deed :=
  let sender := nickOf message.messagePrefix
  if !sameName (message.param 0) config.channel then (session, [])
  else if sender = [] || sameName sender session.nick then (session, [])
  else if !commandIsForBot (withSlash (message.param 1)) then (session, [])
  else handleCommand config session sender (message.param 1) now

/-- An answer to WHOIS that says who the nick is, if it was asked. -/
def identify (session : Session) (lowered : Str) (account : Option Str) : Session :=
  match session.asked.find lowered with
  | none => session
  | some identity =>
    { session with
      asked := session.asked.set lowered
        { registered := true, account := account.getD identity.account } }

def endOfWhois (session : Session) (lowered : Str) (now : ℤ) : Session × List Deed :=
  match session.asked.find lowered with
  | none => (session, [])
  | some identity =>
    release config { session with asked := session.asked.erase lowered } lowered identity.registered
      identity.account now

/-- The nick is gone: nothing to answer and nothing worth remembering. -/
def noSuchNick (session : Session) (lowered : Str) : Session :=
  { session with
    asked := session.asked.erase lowered
    waiting := session.waiting.filter fun waiting => lowerName waiting.nick ≠ lowered }

def isDeparture (command : Str) : Bool :=
  command = utf8 "NICK" || command = utf8 "QUIT" || command = utf8 "PART" || command = utf8 "KICK"

def handle (session : Session) (message : Message) (now : ℤ) : Session × List Deed :=
  let sender := nickOf message.messagePrefix
  if message.command = utf8 "PING" then
    (session, [.line (commandLine (utf8 "PONG") [] (some (message.param 0)))])
  else if message.command = utf8 "ERROR" then (session, [])
  else if message.command = utf8 "001" then
    ({ session with nick := message.param 0 },
      if config.nickservPassword ≠ [] then
        [.line (commandLine (utf8 "PRIVMSG") [utf8 "NickServ"]
          (some (utf8 "IDENTIFY " ++ config.nickservPassword)))]
      else [])
  else if message.command = utf8 "376" || message.command = utf8 "422" then
    (session, [.line (commandLine (utf8 "JOIN") [config.channel] none)])
  else if message.command = utf8 "433" || message.command = utf8 "437" then
    ({ session with nick := session.nick ++ utf8 "_" },
      [.line (commandLine (utf8 "NICK") [session.nick ++ utf8 "_"] none)])
  else if message.command = utf8 "JOIN" && sameName sender session.nick then
    ({ session with joined := true }, [])
  else if message.command = utf8 "KICK" && sameName (message.param 1) session.nick then
    ({ session with joined := false }, [.line (commandLine (utf8 "JOIN") [config.channel] none)])
  else if message.command = utf8 "307" then
    (identify session (lowerName (message.param 1)) none, [])
  else if message.command = utf8 "330" then
    (if message.param 2 ≠ [] then identify session (lowerName (message.param 1)) (some (message.param 2))
      else session, [])
  else if message.command = utf8 "318" then endOfWhois config session (lowerName (message.param 1)) now
  else if message.command = utf8 "401" then (noSuchNick session (lowerName (message.param 1)), [])
  else if isDeparture message.command then
    ({ session with registrations := session.registrations.erase (lowerName sender) }, [])
  else if message.command = utf8 "PRIVMSG" then handlePrivmsg config session message now
  else (session, [])

/-- A new connection knows nobody. -/
def connected : Session × List Deed :=
  (Session.start config,
    [.line (commandLine (utf8 "NICK") [config.nick] none),
      .line (commandLine (utf8 "USER") [config.user, utf8 "0", utf8 "*"] (some config.realname))])

/-- Gives up on the WHOIS replies that never came and forgets the stale answers. -/
def tick (session : Session) (now : ℤ) : Session :=
  { session with
    asked := (session.waiting.filter fun waiting => waiting.deadline ≤ now).foldl
      (fun asked waiting => asked.erase (lowerName waiting.nick)) session.asked
    waiting := session.waiting.filter fun waiting => now < waiting.deadline
    registrations := session.registrations.filter fun _ entry => now < entry.expires }

inductive Event where
  | connected
  | message (message : Message) (now : ℤ)
  | tick (now : ℤ)
  deriving DecidableEq

def happen (session : Session) : Event → Session × List Deed
  | .connected => connected config
  | .message message now => handle config session message now
  | .tick now => (tick session now, [])

/-- The session after everything that happened, the latest first. -/
def after : List Event → Session
  | [] => Session.start config
  | event :: past => (happen config (after past) event).1

/-- What an event leads to after everything that happened before it. -/
def deedsOf (past : List Event) (event : Event) : List Deed := (happen config (after config past) event).2

def Event.time : Event → Option ℤ
  | .connected => none
  | .message _ now => some now
  | .tick now => some now

end NorelecBot.Irc
