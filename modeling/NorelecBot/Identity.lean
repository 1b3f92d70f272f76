import NorelecBot.Furniture

/-! # Who a player is

A verified platform account is bound to an internal key the first time it is
seen; public names only say which key a name reaches right now. Two accounts
share a key once both asked for it.
-/

namespace NorelecBot
open Lib

/-- The clock on the wall, which is the operating system's. -/
class Clock where
  localHour : ℤ → ℤ
  localDay : ℤ → ℤ

abbrev utc : Clock := ⟨fun now => now / 3600 % 24, fun now => now / 86400⟩

inductive RaidTargetKind where
  | any
  | telegram
  | irc
  deriving DecidableEq, Repr

def lowerName (name : Str) : Str := name.map Text.toLower

def decimal (value : ℤ) : Str :=
  (if value < 0 then utf8 "-" else []) ++ (Nat.toDigits 10 value.natAbs).flatMap String.utf8EncodeChar

def telegramPrefix : Str := utf8 "tg:"
def ircPrefix : Str := utf8 "irc:"

def platformKey (userId : ℤ) (username accountName : Str) : Str :=
  if userId ≠ 0 then telegramPrefix ++ decimal userId
  else ircPrefix ++ lowerName (if accountName = [] then username else accountName)

def displayName (state : ConquisterState) (key : Str) : Str := (state.displayNames.find key).getD key

def rememberTelegram (state : ConquisterState) (username : Str) (userId : ℤ) : ConquisterState :=
  if userId ≠ 0 ∧ counter state.telegramIds username ≠ userId then
    { state with telegramIds := state.telegramIds.set username userId }
  else state

def rememberIrc (state : ConquisterState) (username : Str) : ConquisterState :=
  if (findIgnoreCase state.ircNames username).isNone then
    { state with ircNames := state.ircNames.set username 1 }
  else state

def rememberPlatform (state : ConquisterState) (username : Str) (userId : ℤ) : ConquisterState :=
  if userId = 0 then rememberIrc state username else rememberTelegram state username userId

def holdsAs (state : ConquisterState) (key : Str) : Option Holder :=
  state.current.filter fun hold => Text.equalsIgnoreCase hold.username key

def ambiguousLegacy (state : ConquisterState) (key : Str) : Bool :=
  if (state.displayNames.find key).isSome then false
  else
    ((findIgnoreCase state.telegramIds key).isSome ||
        (holdsAs state key).any fun hold => hold.userId ≠ 0) &&
      ((findIgnoreCase state.ircNames key).isSome ||
        (holdsAs state key).any fun hold => hold.userId = 0)

/-- The name as it is written on file, whatever spelling the message used. -/
def knownPlayer (state : ConquisterState) (name : Str) : Option Str :=
  match [state.scores, state.quotesAdded, state.ids, state.balloons, state.cooldowns].findSome?
      fun counters => findIgnoreCase counters name with
  | some found => some found.1
  | none => (holdsAs state name).map Holder.username

/-- Whether the holder is an IRC player filed under that very name. -/
def holdsFromIrc (state : ConquisterState) (known : Str) : Bool :=
  state.current.any fun hold => hold.userId = 0 && hold.username = known

def knownOnIrc (state : ConquisterState) (known : Str) : Bool :=
  (findIgnoreCase state.telegramIds known).isNone &&
    ((findIgnoreCase state.ircNames known).isSome || holdsFromIrc state known)

/-- The historical name an account could be; nothing when two of them bear its id. -/
def legacyCandidate (state : ConquisterState) (userId : ℤ) (username : Str) : Option Str :=
  if userId ≠ 0 then
    match (state.telegramIds.filter fun _ id => id = userId).keys with
    | [] => (state.current.filter fun hold => hold.userId = userId).map Holder.username
    | [name] => some name
    | _ :: _ :: _ => none
  else (knownPlayer state username).filter fun known => knownOnIrc state known

/-- Never give a historical name to a different Telegram ID or to an IRC namesake. -/
def legacyOwner (state : ConquisterState) (userId : ℤ) (username accountName : Str) : Option Str :=
  (legacyCandidate state userId username).filter fun candidate =>
    !ambiguousLegacy state candidate &&
      state.accounts.entries.all fun entry =>
        entry.2 ≠ candidate || entry.1 = platformKey userId username accountName

/-- Players of saves from before the accounts who have not spoken yet. -/
def legacyByName (state : ConquisterState) (name : Str) (platform : RaidTargetKind) : Option Str :=
  (knownPlayer state name).filter fun legacy =>
    (state.displayNames.find legacy).isNone && !ambiguousLegacy state legacy &&
      match platform with
      | .telegram => (findIgnoreCase state.telegramIds legacy).isSome
      | .irc => knownOnIrc state legacy
      | .any => false

def playerByName (state : ConquisterState) (name : Str) : RaidTargetKind → Option Str
  | .telegram => (state.telegramNames.find (lowerName name)).or (legacyByName state name .telegram)
  | .irc => (state.ircNicks.find (lowerName name)).or (legacyByName state name .irc)
  | .any => ((state.telegramNames.find (lowerName name)).or
      (state.ircNicks.find (lowerName name))).or (knownPlayer state name)

/-- Whether a name, as written on that platform, is this very player. -/
def namesPlayer (state : ConquisterState) (player name : Str) (platform : RaidTargetKind) : Bool :=
  playerByName state name platform = some player

def firstOf (players : List Str) : List Str :=
  players.foldl (fun known player => if player ∈ known then known else known ++ [player]) []

def knownPlayers (state : ConquisterState) : List Str :=
  firstOf ((state.current.toList.map Holder.username).filter (· ≠ []) ++
    ([state.scores, state.ids, state.balloons, state.telegramIds, state.ircNames].flatMap OrderedMap.keys ++
      [state.furniture, state.equipped, state.displayNames].flatMap OrderedMap.keys))

section
variable [SlotCodec]

def balloonsHandOut (state : ConquisterState) (furnitureLimit : ℕ) : ConquisterState :=
  (knownPlayers state).foldl (fun known player => welcome known player furnitureLimit) state

/-- The key an account is bound to: the one on file, else a historical name it owns, else its own. -/
def keyFor (state : ConquisterState) (userId : ℤ) (username accountName : Str) : Str :=
  match state.accounts.find (platformKey userId username accountName) with
  | some key => key
  | none => (legacyOwner state userId username accountName).getD (platformKey userId username accountName)

def bindAccount (state : ConquisterState) (userId : ℤ) (username accountName : Str) : ConquisterState :=
  if (state.accounts.find (platformKey userId username accountName)).isSome then state
  else { state with accounts := state.accounts.set (platformKey userId username accountName)
                                  (keyFor state userId username accountName) }

/-- The key loses every name it had there and takes this one, from whoever had it. -/
def rename (names : Authors) (username key : Str) : Authors :=
  (names.filter fun _ owner => owner ≠ key).set (lowerName username) key

def takeName (state : ConquisterState) (userId : ℤ) (username key : Str) : ConquisterState :=
  if userId ≠ 0 then { state with telegramNames := rename state.telegramNames username key }
  else { state with ircNicks := rename state.ircNicks username key }

def showName (state : ConquisterState) (userId : ℤ) (username key : Str) : ConquisterState :=
  if userId ≠ 0 ∨ counter state.telegramIds key = 0 then
    { state with displayNames := state.displayNames.set key username }
  else state

/-- Somebody nobody ever welcomed is new: from now on he is told as one. -/
def join (state : ConquisterState) (key : Str) (now : ℤ) : ConquisterState :=
  if now > 0 ∧ counter state.welcomed key = 0 ∧ (state.joined.find key).isNone then
    { state with joined := state.joined.set key now }
  else state

/-- The days a newcomer plays, until his invite is settled. -/
def countDay [Clock] (state : ConquisterState) (key : Str) (now : ℤ) : ConquisterState :=
  if now > 0 ∧ (state.joined.find key).isSome ∧ (state.invitePaid.find key).isNone ∧
      counter state.inviteLastDay key ≠ Clock.localDay now then
    { state with
      inviteLastDay := state.inviteLastDay.set key (Clock.localDay now)
      inviteDays := state.inviteDays.set key (counter state.inviteDays key + 1) }
  else state

/-- What is put on file about an account that is seen, before its player is welcomed. -/
def introduce (state : ConquisterState) (userId : ℤ) (username accountName : Str) (now : ℤ) :
    ConquisterState :=
  let key := keyFor state userId username accountName
  let named := takeName (bindAccount state userId username accountName) userId username key
  join (rememberPlatform (showName named userId username key) key userId) key now

def playerSeen [Clock] (state : ConquisterState) (userId : ℤ) (username accountName : Str)
    (furnitureLimit : ℕ) (now : ℤ) : Str × ConquisterState :=
  let key := keyFor state userId username accountName
  (key, countDay (welcome (introduce state userId username accountName now) key furnitureLimit) key now)

inductive LinkStatus where
  | pending
  | linked
  | unknownAccount
  | conflict
  | self
  | alreadyLinked
  deriving DecidableEq, Repr

/-- What the account somebody links himself to starts with: the other platform's prefix. -/
def otherPrefix (userId : ℤ) : Str := if userId ≠ 0 then ircPrefix else telegramPrefix
def ownPrefix (userId : ℤ) : Str := if userId ≠ 0 then telegramPrefix else ircPrefix

/-- The first account of the other platform that is bound to that key. -/
def accountOf (state : ConquisterState) (userId : ℤ) (key : Str) : Option Str :=
  (state.accounts.entries.find? fun entry =>
    entry.2 = key && (otherPrefix userId).isPrefixOf entry.1).map Prod.fst

def owned (state : ConquisterState) (key : Str) : List Str :=
  (slotsOf state key ++ gearOf state key).filter (· ≠ [])

def onlyTheWelcome (emoji : List Str) : Bool :=
  match emoji with
  | [one] => isPower one .balloon
  | _ => false

/-- What is worth keeping: palle, quotes, the place, a ride, or emoji beyond the welcome 🎈. -/
def hasAssets (state : ConquisterState) (key : Str) : Bool :=
  0 < counter state.scores key || 0 < counter state.quotesAdded key ||
    state.current.any (fun hold => hold.username = key) ||
    (owned state key ≠ [] && !onlyTheWelcome (owned state key)) ||
    state.raids.any (fun raid => raid.raider = key || raid.target = key) ||
    state.quoteAuthors.entries.any fun entry => entry.2 = key

def replaceKey (secondary primary key : Str) : Str := if key = secondary then primary else key

def mergeTelegram (ids : Counters) (secondary primary : Str) : Counters :=
  match ids.find secondary with
  | some id => (ids.set primary id).erase secondary
  | none => ids

def mergeIrc (names : Counters) (secondary primary : Str) : Counters :=
  if (names.find secondary).isSome then (names.erase secondary).set primary 1 else names

/-- The name on Telegram of whichever of the two plays there. -/
def telegramDisplay (state : ConquisterState) (secondary primary : Str) : Str :=
  if counter state.telegramIds primary ≠ 0 then displayName state primary
  else if counter state.telegramIds secondary ≠ 0 then displayName state secondary
  else []

/-- The one merged in had nothing worth keeping: what is left of him on file goes. -/
def merge (state : ConquisterState) (mine theirs secondary primary : Str) : ConquisterState :=
  { state with
    accounts := state.accounts.mapVals (replaceKey secondary primary)
    scores := state.scores.erase secondary
    quotesAdded := state.quotesAdded.erase secondary
    balloons := state.balloons.erase secondary
    cooldowns := state.cooldowns.erase secondary
    ids := state.ids.erase secondary
    debugging := state.debugging.erase secondary
    welcomed := state.welcomed.erase secondary
    smeared := state.smeared.erase secondary
    frozen := state.frozen.erase secondary
    furniture := state.furniture.erase secondary
    equipped := state.equipped.erase secondary
    telegramNames := state.telegramNames.mapVals (replaceKey secondary primary)
    ircNicks := state.ircNicks.mapVals (replaceKey secondary primary)
    telegramIds := mergeTelegram state.telegramIds secondary primary
    ircNames := mergeIrc state.ircNames secondary primary
    displayNames :=
      let shown := telegramDisplay state secondary primary
      if shown ≠ [] then (state.displayNames.erase secondary).set primary shown
      else state.displayNames.erase secondary
    linkRequests := (state.linkRequests.erase mine).erase theirs }

/-- Whether one of the two players is already joined to another account on the other's platform. -/
def linkedElsewhere (state : ConquisterState) (userId : ℤ) (mine theirs mineKey otherKey : Str) : Bool :=
  state.accounts.entries.any fun entry =>
    (entry.2 = mineKey && entry.1 ≠ mine && (otherPrefix userId).isPrefixOf entry.1) ||
      (entry.2 = otherKey && entry.1 ≠ theirs && (ownPrefix userId).isPrefixOf entry.1)

/-- Both have asked: they become one player unless there is something to lose. -/
def linkBoth (state : ConquisterState) (userId : ℤ) (mine theirs mineKey otherKey : Str) :
    LinkStatus × ConquisterState :=
  if linkedElsewhere state userId mine theirs mineKey otherKey then (.alreadyLinked, state)
  else if hasAssets state mineKey && hasAssets state otherKey then (.conflict, state)
  else if hasAssets state otherKey then (.linked, merge state mine theirs mineKey otherKey)
  else (.linked, merge state mine theirs otherKey mineKey)

def playerLink (state : ConquisterState) (userId : ℤ) (username otherName accountName : Str) :
    Except Failure (LinkStatus × ConquisterState) :=
  let mine := platformKey userId username accountName
  match (if userId ≠ 0 then state.ircNicks else state.telegramNames).find (lowerName otherName) with
  | none => .ok (.unknownAccount, state)
  | some other =>
    match accountOf state userId other with
    | none => .ok (.unknownAccount, state)
    | some theirs =>
      match state.accounts.find mine, state.accounts.find theirs with
      | some mineKey, some otherKey =>
        if mineKey = otherKey then .ok (.self, state)
        else if state.linkRequests.find theirs ≠ some mine then
          .ok (.pending, { state with linkRequests := state.linkRequests.set mine theirs })
        else .ok (linkBoth state userId mine theirs mineKey otherKey)
      | _, _ => .error .outOfRange

end

end NorelecBot
