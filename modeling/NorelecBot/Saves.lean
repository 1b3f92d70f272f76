import NorelecBot.Lib.Codec
import NorelecBot.Identity

/-! # The save format

How `conquister.json` is read into the game state and written back, over a JSON
value as the library holds it: members in their order, numbers exact.
-/

namespace NorelecBot
open Lib

inductive Json where
  | null
  | bool (value : Bool)
  | int (value : ℤ)
  /-- A number with a fraction or an exponent, as it is spelled. -/
  | real (literal : Str)
  | str (text : Str)
  | arr (items : List Json)
  | obj (members : List (Str × Json))

/-- Why a document is not taken. -/
inductive LoadError where
  /-- `std::invalid_argument`, with its text. -/
  | invalid (text : Str)
  /-- `at` finds no such member. -/
  | missing (key : Str)
  /-- The library was asked for a type the value does not have. -/
  | wrongType (found : Str)
  /-- `stoul` finds no number, or one that does not fit. -/
  | badSlot (text : Str)
  deriving DecidableEq, Repr

namespace Json

def typeName : Json → Str
  | null => utf8 "null"
  | bool _ => utf8 "boolean"
  | int _ => utf8 "number"
  | real _ => utf8 "number"
  | str _ => utf8 "string"
  | arr _ => utf8 "array"
  | obj _ => utf8 "object"

def isObject : Json → Bool
  | obj _ => true
  | _ => false

def find (json : Json) (key : Str) : Option Json :=
  match json with
  | obj members => assoc key members
  | _ => none

def contains (json : Json) (key : Str) : Bool := (json.find key).isSome

/-- The `at` of the library. -/
def member (json : Json) (key : Str) : Except LoadError Json :=
  match json with
  | obj members =>
    match assoc key members with
    | some value => .ok value
    | none => .error (.missing key)
  | other => .error (.wrongType other.typeName)

def getString : Json → Except LoadError Str
  | str text => .ok text
  | other => .error (.wrongType other.typeName)

def getBool : Json → Except LoadError Bool
  | bool value => .ok value
  | other => .error (.wrongType other.typeName)

end Json

def integer : Json → Except LoadError ℤ
  | .int value => .ok value
  | other => .error (.invalid (utf8 "expected an integer, found " ++ other.typeName))

def required {α : Type} (read : Json → Except LoadError α) (json : Json) (key : Str) :
    Except LoadError α :=
  json.member key >>= read

/-- A member that older saves did not have. -/
def optional {α : Type} (read : Json → Except LoadError α) (absent : α) (json : Json) (key : Str) :
    Except LoadError α :=
  if json.contains key then json.member key >>= read else .ok absent

def parseCounters (state : Json) (name : Str) : Except LoadError Counters :=
  match state.find name with
  | none => .ok .empty
  | some (.obj members) =>
    members.foldlM (fun counters entry => (integer entry.2).map (counters.emplace entry.1)) .empty
  | some _ => .error (.invalid (name ++ utf8 " is not an object"))

/-- Retired timed balloons become ordinary balloons, preserving paid items from old saves. -/
def parseBalloons (now : ℤ) (state : Json) : Except LoadError Counters := do
  let balloons ← parseCounters state (utf8 "balloons")
  let shields ← parseCounters state (utf8 "shields")
  return shields.entries.foldl (fun balloons entry =>
    if now < entry.2 ∧ (balloons.find entry.1).isNone then balloons.set entry.1 0 else balloons) balloons

/-- Whatever is not a text is passed over. -/
def parseAuthors (state : Json) (name : Str) : Authors :=
  match state.find name with
  | some (.obj members) =>
    members.foldl (fun authors entry =>
      match entry.2 with
      | .str text => authors.emplace entry.1 text
      | _ => authors) .empty
  | _ => .empty

/-- A section that lists records: whatever is not an object is passed over. -/
def parseRecords {α : Type} (read : Json → Except LoadError α) (state : Json) (name : Str) :
    Except LoadError (List α) :=
  match state.find name with
  | some (.arr items) => (items.filter Json.isObject).mapM read
  | _ => .ok []

def readRaid (entry : Json) : Except LoadError Raid := do
  return {
    raider := ← required Json.getString entry (utf8 "raider")
    target := ← required Json.getString entry (utf8 "target")
    arrive := ← required integer entry (utf8 "arrive")
    back := ← required integer entry (utf8 "back")
    arrived := ← required Json.getBool entry (utf8 "arrived")
    loot := ← required integer entry (utf8 "loot")
    gift := ← optional integer 0 entry (utf8 "gift")
    giftEmoji := ← optional Json.getString [] entry (utf8 "gift_emoji")
    intact := ← optional Json.getBool false entry (utf8 "intact") }

def readPregnancy (entry : Json) : Except LoadError Pregnancy := do
  return {
    mother := ← required Json.getString entry (utf8 "mother")
    father := ← required Json.getString entry (utf8 "father")
    due := ← required integer entry (utf8 "due") }

def readKnock (entry : Json) : Except LoadError Knock := do
  return {
    raider := ← required Json.getString entry (utf8 "raider")
    target := ← required Json.getString entry (utf8 "target")
    stamp := ← required integer entry (utf8 "at") }

def readChild (entry : Json) : Except LoadError Child := do
  return {
    owner := ← required Json.getString entry (utf8 "owner")
    slot := ← required integer entry (utf8 "slot")
    male := ← required Json.getBool entry (utf8 "male")
    born := ← required integer entry (utf8 "born")
    courted := ← optional Json.getBool false entry (utf8 "courted") }

def parseRaids (state : Json) : Except LoadError (List Raid) :=
  parseRecords readRaid state (utf8 "raids")

def parsePregnancies (state : Json) : Except LoadError (List Pregnancy) :=
  parseRecords readPregnancy state (utf8 "pregnancies")

def parseKnocks (state : Json) : Except LoadError (List Knock) :=
  parseRecords readKnock state (utf8 "knocks")

def parseChildren (state : Json) : Except LoadError (List Child) :=
  parseRecords readChild state (utf8 "children")

/-- A sign in front, taken off; whether it was a minus. -/
def withoutSign : Str → Bool × Str
  | 45 :: digits => (true, digits)
  | 43 :: digits => (false, digits)
  | digits => (false, digits)

/-- White space, a sign and digits in front count; a minus takes the number from 2^64. -/
def stoul (text : Str) : Except LoadError ℕ :=
  let signed := withoutSign (text.dropWhile Text.isSpace)
  let digits := signed.2.takeWhile Text.isDigit
  let value := Text.digitsValue digits
  if digits = [] ∨ 2 ^ 64 ≤ value then .error (.badSlot text)
  else .ok (if signed.1 then (2 ^ 64 - value) % 2 ^ 64 else value)

/-- Older saves kept a whole multiplier: x3 is 300%. -/
def readLightning (current : Json) : Except LoadError ℤ :=
  if current.contains (utf8 "lightning_percent") then required integer current (utf8 "lightning_percent")
  else (optional integer 0 current (utf8 "multiplier")).map fun multiplier =>
    if multiplier > 1 then multiplier * 100 else 0

def readLobsters (current : Json) : Except LoadError (SortedMap Str) :=
  match current.find (utf8 "lobsters") with
  | none => .ok .empty
  | some (.obj members) =>
    members.foldlM (fun lobsters entry => do
      let emoji ← entry.2.getString
      return lobsters.set (← stoul entry.1) emoji) .empty
  | some _ => .error (.invalid (utf8 "lobsters is not an object"))

def readHolder (current : Json) : Except LoadError Holder := do
  return {
    userId := ← required integer current (utf8 "user_id")
    username := ← required Json.getString current (utf8 "username")
    since := ← required integer current (utf8 "since")
    lightningPercent := ← readLightning current
    bolts := ← optional integer 0 current (utf8 "bolts")
    banked := ← optional integer 0 current (utf8 "banked")
    countedFrom := ← optional integer 0 current (utf8 "counted_from")
    lobsters := ← readLobsters current }

def parseHolder (json : Json) : Except LoadError (Option Holder) :=
  match json.find (utf8 "current") with
  | none => .ok none
  | some .null => .ok none
  | some current => (readHolder current).map some

/-- Missing sections count as empty, like in the original C version. -/
def parseState (now : ℤ) (json : Json) : Except LoadError ConquisterState :=
  if json.isObject then do
    return ConquisterState.mk
      (← parseHolder json)
      (← parseCounters json (utf8 "scores"))
      (← parseCounters json (utf8 "quotes_added"))
      (← parseBalloons now json)
      (← parseCounters json (utf8 "cooldowns"))
      (← parseCounters json (utf8 "ids"))
      (← parseCounters json (utf8 "telegram_ids"))
      (← parseCounters json (utf8 "irc_names"))
      (parseAuthors json (utf8 "accounts"))
      (parseAuthors json (utf8 "display_names"))
      (parseAuthors json (utf8 "telegram_names"))
      (parseAuthors json (utf8 "irc_nicks"))
      (parseAuthors json (utf8 "link_requests"))
      (← parseRaids json)
      (parseAuthors json (utf8 "quote_authors"))
      (parseAuthors json (utf8 "furniture"))
      (← parseCounters json (utf8 "debugging"))
      (← parseCounters json (utf8 "smeared"))
      (← parseCounters json (utf8 "welcomed"))
      (← parseCounters json (utf8 "frozen"))
      (← parsePregnancies json)
      (← parseChildren json)
      (← optional integer 0 json (utf8 "eggs_at"))
      (← parseKnocks json)
      (parseAuthors json (utf8 "equipped"))
      (← optional Json.getBool false json (utf8 "split"))
      (← parseCounters json (utf8 "pugliesi"))
      (← parseCounters json (utf8 "joined"))
      (← parseCounters json (utf8 "guided"))
      (← parseCounters json (utf8 "entered"))
      (parseAuthors json (utf8 "invited_by"))
      (← parseCounters json (utf8 "invite_days"))
      (← parseCounters json (utf8 "invite_last_day"))
      (← parseCounters json (utf8 "invite_paid"))
  else .error (.invalid (utf8 "unexpected structure"))

namespace Json

def ofCounters (counters : Counters) : Json := obj (counters.entries.map fun entry => (entry.1, int entry.2))
def ofAuthors (authors : Authors) : Json := obj (authors.entries.map fun entry => (entry.1, str entry.2))

def ofRaid (raid : Raid) : Json := obj [
  (utf8 "raider", str raid.raider),
  (utf8 "target", str raid.target),
  (utf8 "arrive", int raid.arrive),
  (utf8 "back", int raid.back),
  (utf8 "arrived", bool raid.arrived),
  (utf8 "loot", int raid.loot),
  (utf8 "gift", int raid.gift),
  (utf8 "gift_emoji", str raid.giftEmoji),
  (utf8 "intact", bool raid.intact)]

def ofPregnancy (pregnancy : Pregnancy) : Json := obj [
  (utf8 "mother", str pregnancy.mother),
  (utf8 "father", str pregnancy.father),
  (utf8 "due", int pregnancy.due)]

def ofChild (child : Child) : Json := obj [
  (utf8 "owner", str child.owner),
  (utf8 "slot", int child.slot),
  (utf8 "male", bool child.male),
  (utf8 "born", int child.born),
  (utf8 "courted", bool child.courted)]

def ofKnock (knock : Knock) : Json := obj [
  (utf8 "raider", str knock.raider),
  (utf8 "target", str knock.target),
  (utf8 "at", int knock.stamp)]

def ofLobsters (lobsters : SortedMap Str) : Json :=
  obj (lobsters.entries.map fun entry => (decimal entry.1, str entry.2))

/-- The 🦞 are left out where there are none. -/
def ofHolder (holder : Holder) : Json := obj ([
  (utf8 "user_id", int holder.userId),
  (utf8 "username", str holder.username),
  (utf8 "since", int holder.since),
  (utf8 "lightning_percent", int holder.lightningPercent),
  (utf8 "bolts", int holder.bolts),
  (utf8 "banked", int holder.banked),
  (utf8 "counted_from", int holder.countedFrom)] ++
  if holder.lobsters.entries = [] then [] else [(utf8 "lobsters", ofLobsters holder.lobsters)])

def ofCurrent : Option Holder → Json
  | none => null
  | some holder => ofHolder holder

end Json

open Json in
def stateMembers (state : ConquisterState) : List (Str × Json) := [
  (utf8 "current", ofCurrent state.current),
  (utf8 "scores", ofCounters state.scores),
  (utf8 "quotes_added", ofCounters state.quotesAdded),
  (utf8 "balloons", ofCounters state.balloons),
  (utf8 "cooldowns", ofCounters state.cooldowns),
  (utf8 "ids", ofCounters state.ids),
  (utf8 "telegram_ids", ofCounters state.telegramIds),
  (utf8 "irc_names", ofCounters state.ircNames),
  (utf8 "accounts", ofAuthors state.accounts),
  (utf8 "display_names", ofAuthors state.displayNames),
  (utf8 "telegram_names", ofAuthors state.telegramNames),
  (utf8 "irc_nicks", ofAuthors state.ircNicks),
  (utf8 "link_requests", ofAuthors state.linkRequests),
  (utf8 "raids", arr (state.raids.map ofRaid)),
  (utf8 "quote_authors", ofAuthors state.quoteAuthors),
  (utf8 "furniture", ofAuthors state.furniture),
  (utf8 "debugging", ofCounters state.debugging),
  (utf8 "smeared", ofCounters state.smeared),
  (utf8 "welcomed", ofCounters state.welcomed),
  (utf8 "frozen", ofCounters state.frozen),
  (utf8 "pregnancies", arr (state.pregnancies.map ofPregnancy)),
  (utf8 "children", arr (state.children.map ofChild)),
  (utf8 "eggs_at", int state.eggsAt),
  (utf8 "knocks", arr (state.knocks.map ofKnock)),
  (utf8 "equipped", ofAuthors state.equipped),
  (utf8 "split", bool state.split),
  (utf8 "pugliesi", ofCounters state.pugliesi),
  (utf8 "joined", ofCounters state.joined),
  (utf8 "guided", ofCounters state.guided),
  (utf8 "entered", ofCounters state.entered),
  (utf8 "invited_by", ofAuthors state.invitedBy),
  (utf8 "invite_days", ofCounters state.inviteDays),
  (utf8 "invite_last_day", ofCounters state.inviteLastDay),
  (utf8 "invite_paid", ofCounters state.invitePaid)]

def stateToJson (state : ConquisterState) : Json := .obj (stateMembers state)

end NorelecBot
