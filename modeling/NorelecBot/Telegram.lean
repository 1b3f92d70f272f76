import NorelecBot.Config
import NorelecBot.Dispatch
import NorelecBot.Saves

/-! # What comes from Telegram

Of an update the bot reads the message, and of the message who wrote it, where and
what. An answer goes back to the chat it was asked in, and from the game's chat to
IRC as well.
-/

namespace NorelecBot
open Lib

def findMember (object : Option Json) (key : String) : Option Json := object.bind fun json => json.find (utf8 key)

def integerMember (object : Option Json) (key : String) : Option ℤ :=
  match findMember object key with
  | some (.int value) => some value
  | _ => none

structure Incoming where
  said : Str
  chat : ℤ
  sender : ℤ
  username : Str
  deriving DecidableEq, Repr

def incoming (message : Json) : Option Incoming :=
  match findMember (some message) "text", integerMember (findMember (some message) "chat") "id",
    integerMember (findMember (some message) "from") "id" with
  | some (.str said), some chat, some sender =>
    some
      { said := said
        chat := chat
        sender := sender
        username :=
          match findMember (findMember (some message) "from") "username" with
          | some (.str username) => username
          | _ => [] }
  | _, _, _ => none

section
variable (config : Configuration)

def Configuration.gameChat : ℤ := config (.number .conquisterChatId)

def contextOf (message : Incoming) : CommandContext where
  config := config.app
  userId := message.sender
  username := message.username
  claimsAllowed := config.gameChat = 0 || message.chat = config.gameChat
  owner := message.sender ∈ config (.ids .ownerIds)
  admin := message.sender ∈ config (.ids .adminIds)

/-- Where something is said. -/
inductive Outlet where
  | telegram (chat : ℤ)
  | irc
  deriving DecidableEq, Repr

inductive Notice where
  /-- What the sentinel saw. -/
  | report
  | spoken (spoken : Spoken)
  deriving DecidableEq, Repr

/-- Whether an owner asks in private what the sentinel saw. -/
def asksReport (message : Incoming) : Bool :=
  Text.trim message.said = utf8 "/sospetti" && message.chat = message.sender && (contextOf config message).owner

def outletsOf (message : Incoming) : List Outlet :=
  .telegram message.chat ::
    if config (.switch .ircEnabled) = true ∧ message.chat = config.gameChat then [.irc] else []

def processMessage [SlotCodec] [Clock] (moment : Moment) (bot : Bot) (message : Json) : Bot × List (Outlet × Notice) :=
  match incoming message with
  | none => (bot, [])
  | some message =>
    if asksReport config message then (bot, [(.telegram message.chat, .report)])
    else
      (bot.after (.message ⟨contextOf config message, moment, message.said⟩),
        match (bot.hear ⟨contextOf config message, moment, message.said⟩).1 with
        | none => []
        | some spoken => (outletsOf config message).map fun outlet => (outlet, .spoken spoken))

def goThrough [SlotCodec] [Clock] (moment : Moment) (bot : Bot) (update : Json) : Bot × List (Outlet × Notice) :=
  match findMember (some update) "message" with
  | some (.obj members) => processMessage config moment bot (.obj members)
  | _ => (bot, [])

/-- The updates of an answer, one after another. -/
def goThroughAll [SlotCodec] [Clock] (bot : Bot) (visits : List (Moment × Json)) : Bot :=
  visits.foldl (fun bot visit => (goThrough config visit.1 bot visit.2).1) bot

def messageIn (update : Json) : Option Incoming :=
  match findMember (some update) "message" with
  | some (.obj members) => incoming (.obj members)
  | _ => none

def eventsOf (moment : Moment) (update : Json) : List Event :=
  match messageIn update with
  | none => []
  | some message =>
    if asksReport config message then [] else [.message ⟨contextOf config message, moment, message.said⟩]

theorem goThrough_bot [SlotCodec] [Clock] (moment : Moment) (bot : Bot) (update : Json) :
    (goThrough config moment bot update).1 = bot.run (eventsOf config moment update) := by
  rw [goThrough, eventsOf, messageIn]
  split
  case h_2 => rfl
  case h_1 members _ =>
    rw [processMessage]
    cases hread : incoming (.obj members) with
    | none => rfl
    | some message => by_cases hreport : asksReport config message = true <;> simp [hreport, Bot.run]

theorem goThroughAll_bot [SlotCodec] [Clock] (bot : Bot) (visits : List (Moment × Json)) :
    goThroughAll config bot visits = bot.run (visits.flatMap fun visit => eventsOf config visit.1 visit.2) := by
  induction visits generalizing bot with
  | nil => rfl
  | cons visit visits ih =>
    rw [goThroughAll, List.foldl_cons, ← goThroughAll, ih, goThrough_bot, List.flatMap_cons, Bot.run, Bot.run, Bot.run,
      List.foldl_append]

end

end NorelecBot
