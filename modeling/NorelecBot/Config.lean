import NorelecBot.Commands
import NorelecBot.Lib.Signed
import NorelecBot.Lib.Lines
import NorelecBot.Lib.Store
import Mathlib.Data.List.DropRight

/-! # How the bot is told what to do

A file of lines and the environment name settings one after another, each with
its own way to read a value and its own values when there is nothing to read.
One that is not read stops the bot. The environment comes last.
-/

namespace NorelecBot
open Lib

def intLeast : ℤ := -2 ^ 31

def intMost : ℤ := 2 ^ 31 - 1

/-- What a number is called, what it is unless told otherwise, and what it may be. -/
structure NumberRule where
  name : Str
  fallback : ℤ
  minimum : ℤ := intLeast
  maximum : ℤ := intMost
  within : minimum ≤ fallback ∧ fallback ≤ maximum := by decide

inductive NumberSetting where
  | quoteCost
  | furnitureCost
  | furnitureInflation
  | furnitureLimit
  | lootDivisor
  | cooldownSeconds
  | travelDivisor
  | lightningPercent
  | smearedSeconds
  | rocketPercent
  | pleadingPercent
  | bombDudPercent
  | nukeCost
  | dogPercent
  | balloonCost
  | mailboxPercent
  | ninjaPercent
  | alarmPercent
  | piratePercent
  | pregnancySeconds
  | childStageSeconds
  | henPerMinute
  | matingPercent
  | dinoPercent
  | saltPercent
  | frozenSeconds
  | firePercent
  | hourglassPercent
  | conquisterChatId
  | apiPort
  | ircPort
  | goldenHour
  | sentinelHour
  deriving DecidableEq, Repr

def NumberSetting.rule : NumberSetting → NumberRule
  | .quoteCost => { name := utf8 "NORELECBOT_QUOTE_COST", fallback := 1000, minimum := 0 }
  | .furnitureCost => { name := utf8 "NORELECBOT_FURNITURE_COST", fallback := 10000, minimum := 0 }
  | .furnitureInflation =>
    { name := utf8 "NORELECBOT_FURNITURE_INFLATION", fallback := 50, minimum := 0, maximum := 1000 }
  | .furnitureLimit => { name := utf8 "NORELECBOT_FURNITURE_LIMIT", fallback := 10, minimum := 1 }
  | .lootDivisor => { name := utf8 "NORELECBOT_LOOT_DIVISOR", fallback := 50, minimum := 1 }
  | .cooldownSeconds => { name := utf8 "NORELECBOT_COOLDOWN_SECONDS", fallback := 300, minimum := 0 }
  | .travelDivisor => { name := utf8 "NORELECBOT_TRAVEL_DIVISOR", fallback := 350, minimum := 1 }
  | .lightningPercent =>
    { name := utf8 "NORELECBOT_LIGHTNING_PERCENT", fallback := 10, minimum := 0, maximum := 1000 }
  | .smearedSeconds => { name := utf8 "NORELECBOT_SMEARED_SECONDS", fallback := 86400, minimum := 0 }
  | .rocketPercent => { name := utf8 "NORELECBOT_ROCKET_PERCENT", fallback := 10, minimum := 0, maximum := 1000 }
  | .pleadingPercent => { name := utf8 "NORELECBOT_PLEADING_PERCENT", fallback := 10, minimum := 0, maximum := 100 }
  | .bombDudPercent => { name := utf8 "NORELECBOT_BOMB_DUD_PERCENT", fallback := 10, minimum := 0, maximum := 100 }
  | .nukeCost => { name := utf8 "NORELECBOT_NUKE_COST", fallback := 1000000, minimum := 0 }
  | .dogPercent => { name := utf8 "NORELECBOT_DOG_PERCENT", fallback := 10, minimum := 0, maximum := 100 }
  | .balloonCost => { name := utf8 "NORELECBOT_BALLOON_COST", fallback := 1000, minimum := 0 }
  | .mailboxPercent => { name := utf8 "NORELECBOT_MAILBOX_PERCENT", fallback := 10, minimum := 0, maximum := 100 }
  | .ninjaPercent => { name := utf8 "NORELECBOT_NINJA_PERCENT", fallback := 10, minimum := 0, maximum := 100 }
  | .alarmPercent => { name := utf8 "NORELECBOT_ALARM_PERCENT", fallback := 10, minimum := 0, maximum := 100 }
  | .piratePercent => { name := utf8 "NORELECBOT_PIRATE_PERCENT", fallback := 10, minimum := 0, maximum := 100 }
  | .pregnancySeconds => { name := utf8 "NORELECBOT_PREGNANCY_SECONDS", fallback := 9 * 60 * 60, minimum := 0 }
  | .childStageSeconds => { name := utf8 "NORELECBOT_CHILD_STAGE_SECONDS", fallback := 24 * 60 * 60, minimum := 1 }
  | .henPerMinute => { name := utf8 "NORELECBOT_HEN_PER_MINUTE", fallback := 1, minimum := 0 }
  | .matingPercent => { name := utf8 "NORELECBOT_MATING_PERCENT", fallback := 50, minimum := 0, maximum := 100 }
  | .dinoPercent => { name := utf8 "NORELECBOT_DINO_PERCENT", fallback := 10, minimum := 0, maximum := 100 }
  | .saltPercent => { name := utf8 "NORELECBOT_SALT_PERCENT", fallback := 10, minimum := 0, maximum := 1000 }
  | .frozenSeconds => { name := utf8 "NORELECBOT_FROZEN_SECONDS", fallback := 30 * 60, minimum := 0 }
  | .firePercent => { name := utf8 "NORELECBOT_FIRE_PERCENT", fallback := 10, minimum := 0, maximum := 100 }
  | .hourglassPercent => { name := utf8 "NORELECBOT_HOURGLASS_PERCENT", fallback := 10, minimum := 0, maximum := 100 }
  | .conquisterChatId =>
    { name := utf8 "NORELECBOT_CONQUISTER_CHAT_ID", fallback := 0, minimum := Signed.least, maximum := Signed.most }
  | .apiPort => { name := utf8 "NORELECBOT_API_PORT", fallback := 8000, minimum := 1, maximum := 65535 }
  | .ircPort => { name := utf8 "NORELECBOT_IRC_PORT", fallback := 6697, minimum := 1, maximum := 65535 }
  | .goldenHour => { name := utf8 "NORELECBOT_GOLDEN_HOUR", fallback := 21, minimum := -1, maximum := 23 }
  | .sentinelHour => { name := utf8 "NORELECBOT_SENTINEL_HOUR", fallback := 9, minimum := 0, maximum := 23 }

inductive TextSetting where
  | botToken
  | apiHost
  | conquisterPath
  | ircServer
  | ircNick
  | ircNickservPassword
  | ircChannel
  | ircNoForwardPrefix
  | ircOwnerNick
  | quotesPath
  | newsPath
  | sentinelPath
  | pulsePath
  deriving DecidableEq, Repr

def TextSetting.name : TextSetting → Str
  | .botToken => utf8 "NORELECBOT_TELEGRAM_TOKEN"
  | .apiHost => utf8 "NORELECBOT_API_HOST"
  | .conquisterPath => utf8 "NORELECBOT_CONQUISTER_FILE"
  | .ircServer => utf8 "NORELECBOT_IRC_SERVER"
  | .ircNick => utf8 "NORELECBOT_IRC_NICK"
  | .ircNickservPassword => utf8 "NORELECBOT_IRC_NICKSERV_PASSWORD"
  | .ircChannel => utf8 "NORELECBOT_IRC_CHANNEL"
  | .ircNoForwardPrefix => utf8 "NORELECBOT_IRC_NO_FORWARD_PREFIX"
  | .ircOwnerNick => utf8 "NORELECBOT_IRC_OWNER"
  | .quotesPath => utf8 "NORELECBOT_QUOTES_FILE"
  | .newsPath => utf8 "NORELECBOT_NEWS_FILE"
  | .sentinelPath => utf8 "NORELECBOT_SENTINEL_FILE"
  | .pulsePath => utf8 "NORELECBOT_PULSE_FILE"

def TextSetting.fallback : TextSetting → Str
  | .apiHost => utf8 "0.0.0.0"
  | .conquisterPath => utf8 "conquister.json"
  | .ircNick => utf8 "NorelecBot"
  | .quotesPath => utf8 "quotes.json"
  | .sentinelPath => utf8 "sentinel.json"
  | .pulsePath => utf8 "pulse.json"
  | .botToken | .ircServer | .ircNickservPassword | .ircChannel | .ircNoForwardPrefix | .ircOwnerNick | .newsPath => []

inductive SwitchSetting where
  | conquisterEnabled
  | newcomers
  | starterBalloon
  | ircEnabled
  deriving DecidableEq, Repr

def SwitchSetting.name : SwitchSetting → Str
  | .conquisterEnabled => utf8 "NORELECBOT_CONQUISTER_ENABLED"
  | .newcomers => utf8 "NORELECBOT_NEWCOMERS"
  | .starterBalloon => utf8 "NORELECBOT_STARTER_BALLOON"
  | .ircEnabled => utf8 "NORELECBOT_IRC_ENABLED"

/-- The front ends are off unless they are switched on, what the game hands out is on unless it is switched off. -/
def SwitchSetting.fallback : SwitchSetting → Bool
  | .conquisterEnabled | .ircEnabled => false
  | .newcomers | .starterBalloon => true

inductive NamesSetting where
  | quoteBanned
  | ircAdminNicks
  deriving DecidableEq, Repr

def NamesSetting.name : NamesSetting → Str
  | .quoteBanned => utf8 "NORELECBOT_QUOTE_BANNED"
  | .ircAdminNicks => utf8 "NORELECBOT_IRC_ADMIN"

inductive IdsSetting where
  | ownerIds
  | adminIds
  deriving DecidableEq, Repr

def IdsSetting.name : IdsSetting → Str
  | .ownerIds => utf8 "NORELECBOT_OWNER_ID"
  | .adminIds => utf8 "NORELECBOT_ADMIN_ID"

inductive Setting where
  | number (which : NumberSetting)
  | text (which : TextSetting)
  | switch (which : SwitchSetting)
  | names (which : NamesSetting)
  | ids (which : IdsSetting)
  | zodiacSigns
  deriving DecidableEq, Repr

/-- A player whose real sign is known, rather than the one their name would give. -/
structure SignOverride where
  username : Str
  sign : Str
  deriving DecidableEq, Repr

namespace Setting

abbrev Value : Setting → Type
  | number _ => ℤ
  | text _ => Str
  | switch _ => Bool
  | names _ => List Str
  | ids _ => List ℤ
  | zodiacSigns => List SignOverride

def name : Setting → Str
  | number which => which.rule.name
  | text which => which.name
  | switch which => which.name
  | names which => which.name
  | ids which => which.name
  | zodiacSigns => utf8 "NORELECBOT_ZODIAC_SIGNS"

def fallback : (setting : Setting) → setting.Value
  | number which => which.rule.fallback
  | text which => which.fallback
  | switch which => which.fallback
  | names _ => []
  | ids _ => []
  | zodiacSigns => []

end Setting

/-- Every setting, in the order the environment is asked. -/
def settings : List Setting :=
  [.text .botToken, .switch .conquisterEnabled, .ids .ownerIds, .ids .adminIds, .number .quoteCost, .names .quoteBanned,
    .number .furnitureCost, .number .furnitureInflation, .number .furnitureLimit, .number .lootDivisor,
    .number .cooldownSeconds, .number .travelDivisor, .zodiacSigns, .number .lightningPercent, .number .smearedSeconds,
    .number .rocketPercent, .number .pleadingPercent, .number .bombDudPercent, .number .nukeCost, .number .dogPercent,
    .number .balloonCost, .switch .newcomers, .switch .starterBalloon, .number .mailboxPercent, .number .ninjaPercent,
    .number .alarmPercent, .number .piratePercent, .number .pregnancySeconds, .number .childStageSeconds,
    .number .henPerMinute, .number .matingPercent, .number .dinoPercent, .number .saltPercent, .number .frozenSeconds,
    .number .firePercent, .number .hourglassPercent, .number .conquisterChatId, .text .apiHost, .number .apiPort,
    .text .conquisterPath, .switch .ircEnabled, .text .ircServer, .number .ircPort, .text .ircNick,
    .text .ircNickservPassword, .text .ircChannel, .text .ircNoForwardPrefix, .text .ircOwnerNick, .names .ircAdminNicks,
    .text .quotesPath, .text .newsPath, .text .sentinelPath, .text .pulsePath, .number .goldenHour, .number .sentinelHour]

theorem mem_settings (setting : Setting) : setting ∈ settings := by
  cases setting with
  | zodiacSigns => decide
  | _ which => cases which <;> decide

/-- No two settings have one name. -/
theorem nodup_names : (settings.map Setting.name).Nodup := by decide +kernel

theorem name_injective {one other : Setting} (h : one.name = other.name) : one = other :=
  List.inj_on_of_nodup_map nodup_names (mem_settings one) (mem_settings other) h

def signNames : List Str :=
  [utf8 "ariete", utf8 "toro", utf8 "gemelli", utf8 "cancro", utf8 "leone", utf8 "vergine", utf8 "bilancia",
    utf8 "scorpione", utf8 "sagittario", utf8 "capricorno", utf8 "acquario", utf8 "pesci"]

def signNamed (name : Str) : Option Str := signNames.find? fun sign => Text.equalsIgnoreCase sign name

def isSeparator (character : UInt8) : Bool := character = 44 || character = 32 || character = 9

/-- A list of names, separated by commas or spaces. -/
def splitNames (value : Str) : List Str := ((value.splitOnP isSeparator).map Text.trim).filter (· ≠ [])

/-- What leaves a switch off when it is written. -/
def isOff (value : Str) : Bool := value = utf8 "0" || Text.equalsIgnoreCase value (utf8 "false")

def setNumber (rule : NumberRule) (value : Str) : Option ℤ :=
  match if value = [] then some rule.fallback else Text.parseInt64 value with
  | none => none
  | some parsed => if parsed < rule.minimum ∨ parsed > rule.maximum then none else some parsed

def setText (fallback value : Str) : Str := if value = [] then fallback else value

def setIds (value : Str) : Option (List ℤ) := (splitNames value).mapM Text.parseInt64

/-- A player and a sign, with an equals sign between them. -/
def readSign (pair : Str) : Option SignOverride :=
  if 61 ∉ pair then none
  else
    let username := pair.takeWhile (· ≠ 61)
    let sign := (pair.dropWhile (· ≠ 61)).tail
    if username = [] ∨ signNamed sign = none then none else some ⟨username, sign⟩

def setSigns (value : Str) : Option (List SignOverride) := (splitNames value).mapM readSign

def SwitchSetting.read (which : SwitchSetting) (value : Str) : Bool :=
  if value = [] then which.fallback else !isOff value

def Setting.read : (setting : Setting) → Str → Option setting.Value
  | .number which, value => setNumber which.rule value
  | .text which, value => some (setText which.fallback value)
  | .switch which, value => some (which.read value)
  | .names _, value => some (splitNames value)
  | .ids _, value => setIds value
  | .zodiacSigns, value => setSigns value

abbrev Configuration := (setting : Setting) → setting.Value

def Setting.apply (setting : Setting) (config : Configuration) (value : Str) : Option Configuration :=
  (setting.read value).map (Function.update config setting)

/-- A name that is no setting is passed over. -/
def applySetting (config : Configuration) (name value : Str) : Option Configuration :=
  match settings.find? fun candidate => name = candidate.name with
  | none => some config
  | some setting => setting.apply config value

/-- The quotes around a value are not part of it. -/
def unquoted (value : Str) : Str :=
  match value with
  | [] => []
  | quote :: rest => if (quote = 34 ∨ quote = 39) ∧ rest.getLast? = some quote then rest.dropLast else value

/-- A name and its value; nothing on an empty line, a comment or a line without an equals sign. -/
def lineEntry (line : Str) : Option (Str × Str) :=
  let entry := Text.trim line
  if entry = [] ∨ entry.head? = some 35 ∨ 61 ∉ entry then none
  else
    let name := Text.trim (entry.takeWhile (· ≠ 61))
    let value := Text.trim (entry.dropWhile (· ≠ 61)).tail
    if name = [] then none else some (name, unquoted value)

def applyLine (config : Configuration) (line : Str) : Option Configuration :=
  match lineEntry line with
  | none => some config
  | some (name, value) => applySetting config name value

/-- The lines of a text, the last one too when it is not ended. -/
def fileLines (text : Str) : List Str :=
  (Lines.cut 10 text).1 ++ if (Lines.cut 10 text).2 = [] then [] else [(Lines.cut 10 text).2]

def applyDotenv (config : Configuration) (file : Option Str) : Option Configuration :=
  match file with
  | none => none
  | some text => (fileLines text).foldlM applyLine config

def applyEnvironment (config : Configuration) (environment : Str → Option Str) : Option Configuration :=
  settings.foldlM (fun config setting =>
    match environment setting.name with
    | none => some config
    | some value => setting.apply config value) config

/-- The directory a file is in, as it is written. -/
def parentPath (path : Str) : Str :=
  let directory := path.rdropWhile (· ≠ 47)
  let bare := directory.rdropWhile (· = 47)
  if bare = [] then directory else bare

def besideOf (path name : Str) : Str :=
  if parentPath path = [] then name
  else if (parentPath path).getLast? = some 47 then parentPath path ++ name
  else parentPath path ++ [47] ++ name

/-- Unless told otherwise, a file is kept beside the game's. -/
def Configuration.beside (config : Configuration) (which : TextSetting) : Configuration :=
  if config (.text which) = which.fallback then
    Function.update config (.text which) (besideOf (config (.text .conquisterPath)) which.fallback)
  else config

def loadConfig (file : Option Str) (environment : Str → Option Str) : Option Configuration := do
  let config ← applyDotenv Setting.fallback file
  let config ← applyEnvironment config environment
  return (config.beside .sentinelPath).beside .pulsePath

def Configuration.app (config : Configuration) : AppConfig where
  quoteCost := config (.number .quoteCost)
  quoteBanned := config (.names .quoteBanned)
  furnitureCost := config (.number .furnitureCost)
  furnitureLimit := (config (.number .furnitureLimit)).toNat
  furnitureInflation := config (.number .furnitureInflation)
  lootDivisor := config (.number .lootDivisor)
  cooldownSeconds := config (.number .cooldownSeconds)
  travelDivisor := config (.number .travelDivisor)
  lightningPercent := config (.number .lightningPercent)
  smearedSeconds := config (.number .smearedSeconds)
  rocketPercent := config (.number .rocketPercent)
  pleadingPercent := config (.number .pleadingPercent)
  bombDudPercent := config (.number .bombDudPercent)
  nukeCost := config (.number .nukeCost)
  dogPercent := config (.number .dogPercent)
  balloonCost := config (.number .balloonCost)
  mailboxPercent := config (.number .mailboxPercent)
  ninjaPercent := config (.number .ninjaPercent)
  alarmPercent := config (.number .alarmPercent)
  piratePercent := config (.number .piratePercent)
  pregnancySeconds := config (.number .pregnancySeconds)
  childStageSeconds := config (.number .childStageSeconds)
  henPerMinute := config (.number .henPerMinute)
  matingPercent := config (.number .matingPercent)
  dinoPercent := config (.number .dinoPercent)
  saltPercent := config (.number .saltPercent)
  frozenSeconds := config (.number .frozenSeconds)
  firePercent := config (.number .firePercent)
  hourglassPercent := config (.number .hourglassPercent)
  goldenHour := config (.number .goldenHour)
  starterBalloon := config (.switch .starterBalloon)
  newcomers := config (.switch .newcomers)

end NorelecBot
