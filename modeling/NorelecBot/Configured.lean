import NorelecBot.Config
import NorelecBot.PalleFits

/-! # What the bot starts with

Each setting is what it was told last, whatever the others were told; every
number is within its bounds, which is what the game asks of its rules; and any
value at all can be written in the file, between quotes.
-/

namespace NorelecBot
open Lib

def fileWords (text : Str) : List (Setting × Str) :=
  (fileLines text).filterMap fun line =>
    (lineEntry line).bind fun entry =>
      (settings.find? fun candidate => entry.1 = candidate.name).map fun setting => (setting, entry.2)

def environmentWords (environment : Str → Option Str) : List (Setting × Str) :=
  settings.filterMap fun setting => (environment setting.name).map (Prod.mk setting)

/-- Keeping a file beside the game's changes where it is, and nothing else. -/
theorem beside_of_ne {config : Configuration} {which : TextSetting} {setting : Setting} (h : setting ≠ .text which) :
    config.beside which setting = config setting := by
  rw [Configuration.beside]
  split
  · exact Function.update_of_ne h _ _
  · rfl

theorem beside_self (config : Configuration) (which : TextSetting) :
    config.beside which (.text which) =
      if config (.text which) = which.fallback then besideOf (config (.text .conquisterPath)) which.fallback
      else config (.text which) := by
  rw [Configuration.beside]
  by_cases hnamed : config (.text which) = which.fallback
  · rw [if_pos hnamed, if_pos hnamed, Function.update_self]
  · rw [if_neg hnamed, if_neg hnamed]

/-- What a setting is told last: by the environment, or else by the last line with its name. -/
def lastTold (text : Str) (environment : Str → Option Str) (setting : Setting) : Option Str :=
  (environment setting.name).or (Store.lastWord (fileWords text) setting)

theorem applyDotenv_some (config : Configuration) (text : Str) :
    applyDotenv config (some text) = Store.writeAll Setting.read config (fileWords text) := by
  rw [applyDotenv, Store.writeAll, fileWords, List.foldlM_filterMap]
  congr 1
  funext config line
  rw [applyLine]
  cases lineEntry line with
  | none => rfl
  | some entry =>
    simp only [applySetting, Option.bind_some]
    cases settings.find? fun candidate => entry.1 = candidate.name <;> rfl

theorem applyEnvironment_eq (config : Configuration) (environment : Str → Option Str) :
    applyEnvironment config environment = Store.writeAll Setting.read config (environmentWords environment) := by
  rw [applyEnvironment, Store.writeAll, environmentWords, List.foldlM_filterMap]
  congr 1
  funext config setting
  cases environment setting.name <;> rfl

theorem mem_environmentWords {environment : Str → Option Str} {setting : Setting} {value : Str} :
    (setting, value) ∈ environmentWords environment ↔ environment setting.name = some value := by
  simp only [environmentWords, List.mem_filterMap, Option.map_eq_some_iff]
  constructor
  · rintro ⟨other, -, told, htold, heq⟩
    cases heq
    exact htold
  · intro htold
    exact ⟨setting, mem_settings setting, value, htold, rfl⟩

theorem lastWord_told (text : Str) (environment : Str → Option Str) :
    Store.lastWord (fileWords text ++ environmentWords environment) = lastTold text environment := by
  funext setting
  rw [Store.lastWord_append, environmentWords,
    Store.lastWord_filterMap (List.Nodup.of_map _ nodup_names) (mem_settings setting), lastTold]

def configured (last : Setting → Option Str) : Configuration :=
  ((Configuration.beside (Store.settled Setting.read Setting.fallback last) .sentinelPath)).beside .pulsePath

theorem loadConfig_eq_map (text : Str) (environment : Str → Option Str) :
    loadConfig (some text) environment =
      (Store.writeAll Setting.read Setting.fallback (fileWords text ++ environmentWords environment)).map
        fun config => (Configuration.beside config .sentinelPath).beside .pulsePath := by
  rw [loadConfig, applyDotenv_some, Store.writeAll_append]
  cases Store.writeAll Setting.read Setting.fallback (fileWords text) with
  | none => rfl
  | some config =>
    simp only [Option.bind_eq_bind, Option.bind_some, applyEnvironment_eq]
    cases Store.writeAll Setting.read config (environmentWords environment) <;> rfl

/-- Everything the bot is told can be read. -/
def Readable (text : Str) (environment : Str → Option Str) : Prop :=
  (∀ word ∈ fileWords text, (word.1.read word.2).isSome) ∧
    ∀ (setting : Setting) (value : Str), environment setting.name = some value → (setting.read value).isSome

theorem loadConfig_eq_some {text : Str} {environment : Str → Option Str} {config : Configuration} :
    loadConfig (some text) environment = some config ↔
      Readable text environment ∧ config = configured (lastTold text environment) := by
  rw [loadConfig_eq_map, Option.map_eq_some_iff, Readable]
  simp only [Store.writeAll_eq_some, lastWord_told, List.mem_append, or_imp, forall_and, configured]
  constructor
  · rintro ⟨settled, ⟨⟨hfile, henvironment⟩, rfl⟩, rfl⟩
    exact ⟨⟨hfile, fun setting value htold => henvironment (setting, value) (mem_environmentWords.mpr htold)⟩, rfl⟩
  · rintro ⟨⟨hfile, henvironment⟩, rfl⟩
    exact ⟨_, ⟨⟨hfile, fun word hword => henvironment word.1 word.2 (mem_environmentWords.mp hword)⟩, rfl⟩, rfl⟩

/-- What a setting was told last, or its default. -/
def toldValue (text : Str) (environment : Str → Option Str) (setting : Setting) : setting.Value :=
  ((lastTold text environment setting).bind setting.read).getD setting.fallback

/-- The bot starts when everything it is told can be read, and each setting is what it was told last:
the environment goes before the file, a later line before an earlier one, and no setting touches another. Only the two
files that go with the game's stand beside it, as long as they are told nothing else than their own names. -/
theorem loadConfig_iff (text : Str) (environment : Str → Option Str) :
    ((loadConfig (some text) environment).isSome ↔ Readable text environment) ∧
      (∀ config, loadConfig (some text) environment = some config →
        (∀ setting : Setting, setting ≠ .text .sentinelPath → setting ≠ .text .pulsePath →
          config setting = toldValue text environment setting) ∧
        ∀ which, which = .sentinelPath ∨ which = .pulsePath →
          config (.text which) =
            if toldValue text environment (.text which) = which.fallback then
              besideOf (toldValue text environment (.text .conquisterPath)) which.fallback
            else toldValue text environment (.text which)) ∧
      ∀ text' environment', Readable text' environment' → lastTold text' environment' = lastTold text environment →
        (loadConfig (some text) environment).isSome →
          loadConfig (some text') environment' = loadConfig (some text) environment := by
  refine ⟨?_, ?_, ?_⟩
  · rw [Option.isSome_iff_exists]
    simp only [loadConfig_eq_some, exists_and_left, exists_eq, and_true]
  · intro config hload
    obtain ⟨-, rfl⟩ := loadConfig_eq_some.mp hload
    constructor
    · intro setting hsentinel hpulse
      rw [configured, beside_of_ne hpulse, beside_of_ne hsentinel]
      rfl
    · rintro which (rfl | rfl)
      · have hother : Setting.text .sentinelPath ≠ .text .pulsePath := by simp
        rw [configured, beside_of_ne hother, beside_self]
        rfl
      · have hother : Setting.text .pulsePath ≠ .text .sentinelPath := by simp
        have hgame : Setting.text .conquisterPath ≠ .text .sentinelPath := by simp
        rw [configured, beside_self, beside_of_ne hother, beside_of_ne hgame]
        rfl
  · intro text' environment' hreadable htold hload
    obtain ⟨config, hconfig⟩ := Option.isSome_iff_exists.mp hload
    obtain ⟨-, rfl⟩ := loadConfig_eq_some.mp hconfig
    rw [hconfig, loadConfig_eq_some]
    exact ⟨hreadable, by rw [htold]⟩

theorem setNumber_within {rule : NumberRule} {value : Str} {number : ℤ} (h : setNumber rule value = some number) :
    rule.minimum ≤ number ∧ number ≤ rule.maximum := by
  rw [setNumber] at h
  cases hparsed : (if value = [] then some rule.fallback else Text.parseInt64 value) with
  | none => simp [hparsed] at h
  | some parsed =>
    rw [hparsed] at h
    simp only [Option.ite_none_left_eq_some, not_or, not_lt, gt_iff_lt, Option.some_inj] at h
    rw [← h.2]
    exact h.1

theorem settled_within (last : Setting → Option Str) (which : NumberSetting) :
    which.rule.minimum ≤ Store.settled Setting.read Setting.fallback last (.number which) ∧
      Store.settled Setting.read Setting.fallback last (.number which) ≤ which.rule.maximum := by
  rw [Store.settled]
  cases hread : (last (.number which)).bind (Setting.read (.number which)) with
  | none => exact which.rule.within
  | some number =>
    obtain ⟨value, -, hvalue⟩ := Option.bind_eq_some_iff.mp hread
    exact setNumber_within hvalue

theorem loadConfig_within {file : Option Str} {environment : Str → Option Str} {config : Configuration}
    (h : loadConfig file environment = some config) (which : NumberSetting) :
    which.rule.minimum ≤ config (.number which) ∧ config (.number which) ≤ which.rule.maximum := by
  cases file with
  | none => simp [loadConfig, applyDotenv] at h
  | some text =>
    obtain ⟨-, rfl⟩ := loadConfig_eq_some.mp h
    have hnumber (text : TextSetting) : Setting.number which ≠ .text text := by simp
    rw [configured, beside_of_ne (hnumber _), beside_of_ne (hnumber _)]
    exact settled_within _ which

/-- Whatever the file and the environment say, a bot that starts has every number within its bounds, and
plays by rules the game admits. -/
theorem loadConfig_admitted {file : Option Str} {environment : Str → Option Str} {config : Configuration}
    (h : loadConfig file environment = some config) :
    (∀ which : NumberSetting,
      which.rule.minimum ≤ config (.number which) ∧ config (.number which) ≤ which.rule.maximum) ∧
      config.app.Admitted := by
  have hwithin := loadConfig_within h
  have hint {which : NumberSetting} (hmost : which.rule.maximum = intMost) : config (.number which) < 2 ^ 31 := by
    have hle := (hwithin which).2
    rw [hmost] at hle
    exact Int.lt_of_le_sub_one hle
  constructor
  · exact hwithin
  · constructor
    · exact ⟨(hwithin .quoteCost).1, hint rfl⟩
    · exact ⟨(hwithin .furnitureCost).1, hint rfl⟩
    · exact ⟨(hwithin .nukeCost).1, hint rfl⟩
    · exact ⟨(hwithin .balloonCost).1, hint rfl⟩
    · exact hwithin .furnitureInflation
    · exact ⟨(hwithin .lootDivisor).1, hint rfl⟩
    · exact hwithin .pleadingPercent
    · exact ⟨(hwithin .henPerMinute).1, hint rfl⟩
    · exact hwithin .saltPercent

/-- The bot starts with nothing but a limit, and an inflation in the environment. -/
theorem loadConfig_admitted_limit :
    ∃ config, loadConfig (some (utf8 "NORELECBOT_FURNITURE_LIMIT = 3\n"))
        (fun name => if name = utf8 "NORELECBOT_FURNITURE_INFLATION" then some (utf8 "1000") else none) = some config ∧
      config.app.Admitted := by
  have hstarts : (loadConfig (some (utf8 "NORELECBOT_FURNITURE_LIMIT = 3\n"))
      (fun name => if name = utf8 "NORELECBOT_FURNITURE_INFLATION" then some (utf8 "1000") else none)).isSome := by
    decide +kernel
  obtain ⟨config, hconfig⟩ := Option.isSome_iff_exists.mp hstarts
  exact ⟨config, hconfig, (loadConfig_admitted hconfig).2⟩

/-- A setting and its value between quotes, as a line of the file. -/
def writtenLine (word : Setting × Str) : Str := word.1.name ++ 61 :: 34 :: (word.2 ++ [34])

def writtenFile (words : List (Setting × Str)) : Str := Lines.join 10 (words.map writtenLine) []

def isNameByte (character : UInt8) : Bool := (65 ≤ character && character ≤ 90) || character = 95

theorem settings_named : ∀ setting ∈ settings, setting.name ≠ [] ∧ setting.name.all isNameByte = true := by
  decide +kernel

theorem name_ne_nil (setting : Setting) : setting.name ≠ [] := (settings_named setting (mem_settings setting)).1

theorem isNameByte_name {setting : Setting} {character : UInt8} (h : character ∈ setting.name) :
    isNameByte character = true :=
  List.all_eq_true.mp (settings_named setting (mem_settings setting)).2 character h

theorem not_isSpace_of_isNameByte {character : UInt8} (h : isNameByte character = true) :
    Text.isSpace character = false := by
  simp only [isNameByte, Text.isSpace, Bool.and_eq_true, Bool.or_eq_true, decide_eq_true_eq, Bool.or_eq_false_iff,
    Bool.and_eq_false_iff, decide_eq_false_iff_not, UInt8.le_iff_toNat_le, ← UInt8.toNat_inj] at h ⊢
  simp at h ⊢
  omega

theorem not_mem_name {setting : Setting} {character : UInt8} (h : isNameByte character = false) :
    character ∉ setting.name := fun hthere => by simp [isNameByte_name hthere] at h

theorem trim_of_ends {first last : UInt8} {middle : Str} (hfirst : Text.isSpace first = false)
    (hlast : Text.isSpace last = false) : Text.trim (first :: (middle ++ [last])) = first :: (middle ++ [last]) := by
  simp [Text.trim, hfirst, hlast]

theorem trim_name (setting : Setting) : Text.trim setting.name = setting.name := by
  have hall : ∀ text : Str, (∀ character ∈ text, character ∈ setting.name) → text.dropWhile Text.isSpace = text := by
    intro text htext
    cases text with
    | nil => rfl
    | cons character text =>
      have hspace := not_isSpace_of_isNameByte (isNameByte_name (htext character List.mem_cons_self))
      simp [hspace]
  rw [Text.trim, hall _ fun _ => id, hall _ fun _ => List.mem_reverse.mp, List.reverse_reverse]

theorem takeWhile_name (setting : Setting) (rest : Str) :
    (setting.name ++ 61 :: rest).takeWhile (· ≠ 61) = setting.name ∧
      (setting.name ++ 61 :: rest).dropWhile (· ≠ 61) = 61 :: rest := by
  have hall : ∀ character ∈ setting.name, (decide (character ≠ 61)) = true := fun character hthere =>
    decide_eq_true (ne_of_mem_of_not_mem hthere (not_mem_name (by decide)))
  rw [List.takeWhile_append_of_pos hall, List.dropWhile_append_of_pos hall]
  simp

/-- A line says the value between its quotes, whatever it is. -/
theorem lineEntry_writtenLine (word : Setting × Str) : lineEntry (writtenLine word) = some (word.1.name, word.2) := by
  obtain ⟨setting, value⟩ := word
  obtain ⟨first, rest, hname⟩ := List.exists_cons_of_ne_nil (name_ne_nil setting)
  have hfirst : first ∈ setting.name := by simp [hname]
  have htrim : Text.trim (writtenLine (setting, value)) = writtenLine (setting, value) := by
    rw [writtenLine, hname, List.cons_append, ← List.cons_append (a := 34), ← List.cons_append (a := 61),
      ← List.append_assoc]
    exact trim_of_ends (not_isSpace_of_isNameByte (isNameByte_name hfirst)) rfl
  have hquoted : Text.trim (34 :: (value ++ [34])) = 34 :: (value ++ [34]) := trim_of_ends rfl rfl
  have hhead : first ≠ 35 := ne_of_mem_of_not_mem hfirst (not_mem_name (by decide))
  rw [lineEntry, htrim, if_neg (by simp [writtenLine, hname, hhead])]
  simp only [writtenLine, (takeWhile_name setting _).1, (takeWhile_name setting _).2, List.tail_cons, trim_name, hquoted]
  simp [name_ne_nil, unquoted]

theorem fileLines_writtenFile {words : List (Setting × Str)} (h : ∀ word ∈ words, 10 ∉ word.2) :
    fileLines (writtenFile words) = words.map writtenLine := by
  have hlines : ∀ line ∈ words.map writtenLine, 10 ∉ line := by
    intro line hline
    obtain ⟨word, hword, rfl⟩ := List.mem_map.mp hline
    have hname : 10 ∉ word.1.name := not_mem_name (by decide)
    simp [writtenLine, h word hword, hname]
  rw [fileLines, writtenFile, Lines.cut_join hlines List.not_mem_nil]
  simp

theorem find_setting (setting : Setting) :
    settings.find? (fun candidate => setting.name = candidate.name) = some setting := by
  cases hfound : settings.find? fun candidate => setting.name = candidate.name with
  | none => simpa using List.find?_eq_none.mp hfound setting (mem_settings setting)
  | some other =>
    have hsame := List.find?_some hfound
    rw [name_injective (of_decide_eq_true hsame)]

theorem fileWords_writtenFile {words : List (Setting × Str)} (h : ∀ word ∈ words, 10 ∉ word.2) :
    fileWords (writtenFile words) = words := by
  rw [fileWords, fileLines_writtenFile h, List.filterMap_map]
  simp [lineEntry_writtenLine, find_setting]

/-- Whatever has no line break can be told any setting: between quotes it is read as it is, spaces, signs
and quotes in it too, and the bot starts as if the settings had been told just that. -/
theorem loadConfig_writtenFile {words : List (Setting × Str)} (h : ∀ word ∈ words, 10 ∉ word.2)
    (environment : Str → Option Str) (config : Configuration) :
    loadConfig (some (writtenFile words)) environment = some config ↔
      (∀ word ∈ words, (word.1.read word.2).isSome) ∧
      (∀ (setting : Setting) (value : Str), environment setting.name = some value → (setting.read value).isSome) ∧
      config = configured fun setting => (environment setting.name).or (Store.lastWord words setting) := by
  have htold : lastTold (writtenFile words) environment =
      fun setting => (environment setting.name).or (Store.lastWord words setting) := by
    funext setting
    rw [lastTold, fileWords_writtenFile h]
  rw [loadConfig_eq_some, Readable, fileWords_writtenFile h, htold, and_assoc]

/-- A path with spaces and signs in it. -/
theorem loadConfig_writtenFile_spaces :
    ∃ config, loadConfig (some (writtenFile [(.text .quotesPath, utf8 " a = \"b\" # ")])) (fun _ => none) = some config ∧
      config (.text .quotesPath) = utf8 " a = \"b\" # " := by
  have hread := (@loadConfig_writtenFile [(.text .quotesPath, utf8 " a = \"b\" # ")] (by decide +kernel)
    (fun _ => none) _).mpr ⟨by simp [Setting.read], by simp, rfl⟩
  refine ⟨_, hread, ?_⟩
  decide +kernel

end NorelecBot
