import NorelecBot.Irc.Protocol

/-! # Reading a line of the IRC protocol

What comes in is split at its spaces, up to the parameter that takes the rest.
Reading a line that was written gives back what it was written from.
-/

namespace NorelecBot.Irc

def takeUntilSpace (rest : Str) : Str × Str :=
  (rest.takeWhile fun character => character ≠ 32, rest.dropWhile fun character => character ≠ 32)

def skipSpaces (rest : Str) : Str := rest.dropWhile (· = 32)

def toUpper (character : UInt8) : UInt8 := if 97 ≤ character ∧ character ≤ 122 then character - 32 else character

def endsLine (character : UInt8) : Bool := character = 13 || character = 10

/-- The parameters of a line; the fuel is its length, of which every round takes a byte at least. -/
def paramsOf : ℕ → Str → List Str
  | 0, _ => []
  | fuel + 1, line =>
    let line := skipSpaces line
    if line = [] then []
    else if line.head? = some 58 then [line.drop 1]
    else (takeUntilSpace line).1 :: paramsOf fuel (takeUntilSpace line).2

def parseCommand (messagePrefix line : Str) : Option Message :=
  let (command, rest) := takeUntilSpace line
  if command = [] then none
  else some {
    messagePrefix := messagePrefix
    command := command.map toUpper
    params := paramsOf rest.length rest }

def parse (line : Str) : Option Message :=
  let line := skipSpaces (line.rdropWhile endsLine)
  if line.head? = some 58 then
    let (messagePrefix, rest) := takeUntilSpace (line.drop 1)
    if messagePrefix = [] then none else parseCommand messagePrefix (skipSpaces rest)
  else parseCommand [] line

structure IsMiddle (param : Str) : Prop where
  nonempty : param ≠ []
  space : 32 ∉ param
  ends : ∀ character ∈ param, ¬ endsLine character
  colon : param.head? ≠ some 58

/-- Nothing, or something that a space begins. -/
def Breaks (rest : Str) : Prop := ∀ character, rest.head? = some character → character = 32

/-- The parameter that takes the rest of the line, with what announces it. -/
def trailing (text : Option Str) : Str := text.elim [] fun text => 32 :: 58 :: text

def middle (params : List Str) : Str := params.flatMap fun param => 32 :: param

theorem commandLine_eq (command : Str) (params : List Str) (text : Option Str) :
    commandLine command params text = command ++ (middle params ++ trailing text) ++ [13, 10] := by
  cases text <;> simp [commandLine, middle, trailing, utf8, String.utf8EncodeChar]

theorem skipSpaces_cons (character : UInt8) (rest : Str) :
    skipSpaces (character :: rest) = if character = 32 then skipSpaces rest else character :: rest := by
  by_cases h : character = 32 <;> simp [skipSpaces, h]

theorem skipSpaces_of_head {line : Str} (h : line.head? ≠ some 32) : skipSpaces line = line := by
  cases line with
  | nil => rfl
  | cons character rest =>
    rw [skipSpaces_cons, if_neg]
    simpa using h

theorem takeUntilSpace_append {token rest : Str} (htoken : 32 ∉ token) (hrest : Breaks rest) :
    takeUntilSpace (token ++ rest) = (token, rest) := by
  have hall : ∀ character ∈ token, decide (character ≠ 32) = true := by
    intro character hc
    simp only [decide_eq_true_eq]
    intro h
    exact htoken (h ▸ hc)
  have hstop : (rest.takeWhile fun character => decide (character ≠ 32)) = [] ∧
      (rest.dropWhile fun character => decide (character ≠ 32)) = rest := by
    cases rest with
    | nil => simp
    | cons character rest =>
      have hspace : character = 32 := hrest character rfl
      simp [hspace]
  rw [takeUntilSpace, List.takeWhile_append_of_pos hall, List.dropWhile_append_of_pos hall, hstop.1,
    hstop.2, List.append_nil]

theorem breaks_trailing (text : Option Str) : Breaks (trailing text) := by
  intro character h
  cases text with
  | none => simp [trailing] at h
  | some text =>
    simp [trailing] at h
    exact h.symm

theorem breaks_tail (params : List Str) (text : Option Str) : Breaks (middle params ++ trailing text) := by
  cases params with
  | nil => exact breaks_trailing text
  | cons param params =>
    intro character h
    simp [middle] at h
    exact h.symm

theorem rdropWhile_append {before after : Str} (hnil : after ≠ [])
    (h : ∀ character ∈ after, ¬ endsLine character) :
    (before ++ after ++ [13, 10]).rdropWhile endsLine = before ++ after := by
  rw [show before ++ after ++ [13, 10] = before ++ after ++ [13] ++ [10] by simp,
    List.rdropWhile_concat_pos _ _ _ (by decide), List.rdropWhile_concat_pos _ _ _ (by decide),
    List.rdropWhile_eq_self_iff]
  intro hne
  rw [List.getLast_append_of_right_ne_nil _ _ hnil]
  exact h _ (List.getLast_mem hnil)

theorem paramsOf_nil (fuel : ℕ) : paramsOf fuel [] = [] := by
  cases fuel <;> rfl

/-- One round a parameter, and one for the text that takes the rest. -/
theorem paramsOf_written {params : List Str} (hparams : ∀ param ∈ params, IsMiddle param) (text : Option Str)
    {fuel : ℕ} (hfuel : (middle params ++ trailing text).length ≤ fuel) :
    paramsOf fuel (middle params ++ trailing text) = params ++ text.toList := by
  induction params generalizing fuel with
  | nil =>
    cases text with
    | none => exact paramsOf_nil fuel
    | some text =>
      simp only [middle, trailing, List.flatMap_nil, List.nil_append, Option.elim_some, List.length_cons] at hfuel ⊢
      obtain ⟨fuel, rfl⟩ := Nat.exists_eq_succ_of_ne_zero (show fuel ≠ 0 by omega)
      rw [paramsOf, skipSpaces_cons, if_pos rfl, skipSpaces_of_head (by simp)]
      simp
  | cons param params ih =>
    have hparam := hparams param List.mem_cons_self
    have hsplit : middle (param :: params) ++ trailing text = 32 :: (param ++ (middle params ++ trailing text)) := by
      simp [middle]
    rw [hsplit] at hfuel ⊢
    simp only [List.length_cons, List.length_append] at hfuel ih
    obtain ⟨fuel, rfl⟩ := Nat.exists_eq_succ_of_ne_zero (show fuel ≠ 0 by omega)
    have hhead : (param ++ (middle params ++ trailing text)).head? = param.head? := by
      cases hp : param with
      | nil => exact absurd hp hparam.nonempty
      | cons character rest => rfl
    have hspace : (param ++ (middle params ++ trailing text)).head? ≠ some 32 := by
      rw [hhead]
      intro h
      exact hparam.space (List.mem_of_head? h)
    rw [paramsOf, skipSpaces_cons, if_pos rfl, skipSpaces_of_head hspace]
    rw [takeUntilSpace_append hparam.space (breaks_tail params text)]
    simp only [hhead, hparam.colon, if_false, List.append_eq_nil_iff, hparam.nonempty, false_and,
      List.cons_append, List.cons.injEq, true_and]
    apply ih (fun other hother => hparams other (List.mem_cons_of_mem param hother))
    omega

/-- A command as it is written: letters upper case, or digits. -/
def IsCommand (command : Str) : Prop :=
  command ≠ [] ∧ ∀ character ∈ command, (65 ≤ character ∧ character ≤ 90) ∨ (48 ≤ character ∧ character ≤ 57)

theorem IsCommand.not_mem {command : Str} (h : IsCommand command) {character : UInt8} (hlow : character < 48) :
    character ∉ command := by
  intro hc
  have hrange := h.2 character hc
  simp only [UInt8.le_iff_toNat_le, UInt8.lt_iff_toNat_lt] at hrange hlow
  have h65 : (65 : UInt8).toNat = 65 := rfl
  have h48 : (48 : UInt8).toNat = 48 := rfl
  omega

theorem IsCommand.map_toUpper {command : Str} (h : IsCommand command) : command.map toUpper = command := by
  conv_rhs => rw [← List.map_id command]
  apply List.map_congr_left
  intro character hc
  have hrange := h.2 character hc
  rw [toUpper, if_neg]
  · rfl
  simp only [UInt8.le_iff_toNat_le] at hrange ⊢
  have h90 : (90 : UInt8).toNat = 90 := rfl
  have h57 : (57 : UInt8).toNat = 57 := rfl
  have h97 : (97 : UInt8).toNat = 97 := rfl
  omega

theorem parseCommand_written {command : Str} {params : List Str} (hcommand : IsCommand command)
    (hparams : ∀ param ∈ params, IsMiddle param) (text : Option Str) (messagePrefix : Str) :
    parseCommand messagePrefix (command ++ (middle params ++ trailing text)) =
      some { messagePrefix := messagePrefix, command := command, params := params ++ text.toList } := by
  rw [parseCommand, takeUntilSpace_append (hcommand.not_mem (by decide)) (breaks_tail params text)]
  simp only [hcommand.1, if_false, hcommand.map_toUpper, Option.some.injEq, Message.mk.injEq, true_and]
  exact paramsOf_written hparams text le_rfl

/-- Nothing written ends a line before its end. -/
theorem written_ends {command : Str} {params : List Str} {text : Option Str} (hcommand : IsCommand command)
    (hparams : ∀ param ∈ params, IsMiddle param)
    (htext : ∀ words ∈ text, ∀ character ∈ words, ¬ endsLine character) :
    ∀ character ∈ command ++ (middle params ++ trailing text), ¬ endsLine character := by
  intro character hc
  rw [List.mem_append, List.mem_append] at hc
  rcases hc with hc | hc | hc
  · intro hends
    simp only [endsLine, Bool.or_eq_true, decide_eq_true_eq] at hends
    rcases hends with rfl | rfl
    · exact hcommand.not_mem (by decide) hc
    · exact hcommand.not_mem (by decide) hc
  · obtain ⟨param, hparam, hin⟩ := List.mem_flatMap.mp hc
    rcases List.mem_cons.mp hin with rfl | hin
    · decide
    · exact (hparams param hparam).ends character hin
  · cases text with
    | none => simp [trailing] at hc
    | some words =>
      simp only [trailing, Option.elim_some, List.mem_cons] at hc
      rcases hc with rfl | rfl | hc
      · decide
      · decide
      · exact htext words rfl character hc

theorem IsCommand.head?_append {command : Str} (h : IsCommand command) (rest : Str) :
    ∃ character, 48 ≤ character ∧ character ≠ 58 ∧ (command ++ rest).head? = some character := by
  cases hc : command with
  | nil => exact absurd hc h.1
  | cons character letters =>
    have hrange := h.2 character (by simp [hc])
    simp only [UInt8.le_iff_toNat_le] at hrange
    have h65 : (65 : UInt8).toNat = 65 := rfl
    have h48 : (48 : UInt8).toNat = 48 := rfl
    have h57 : (57 : UInt8).toNat = 57 := rfl
    refine ⟨character, ?_, ?_, rfl⟩
    · simp only [UInt8.le_iff_toNat_le]
      omega
    · rintro rfl
      have h58 : (58 : UInt8).toNat = 58 := rfl
      omega

/-- A line that was written is read as what it was written from, with whatever prefix stands before it. -/
theorem parse_written {command : Str} {params : List Str} {text : Option Str} (hcommand : IsCommand command)
    (hparams : ∀ param ∈ params, IsMiddle param)
    (htext : ∀ words ∈ text, ∀ character ∈ words, ¬ endsLine character) :
    parse (commandLine command params text) =
      some { messagePrefix := [], command := command, params := params ++ text.toList } ∧
    ∀ messagePrefix : Str, messagePrefix ≠ [] → 32 ∉ messagePrefix →
      parse (58 :: messagePrefix ++ 32 :: commandLine command params text) =
        some { messagePrefix := messagePrefix, command := command, params := params ++ text.toList } := by
  have hends := written_ends hcommand hparams htext
  have hnil : command ++ (middle params ++ trailing text) ≠ [] := by simp [hcommand.1]
  obtain ⟨first, hfirst, hcolon, hhead⟩ := hcommand.head?_append (middle params ++ trailing text)
  have hspace : (command ++ (middle params ++ trailing text)).head? ≠ some 32 := by
    rw [hhead, ne_eq, Option.some.injEq]
    rintro rfl
    exact absurd hfirst (by decide)
  rw [commandLine_eq]
  constructor
  · have hline := @rdropWhile_append [] _ hnil hends
    rw [List.nil_append] at hline
    rw [parse, hline, skipSpaces_of_head hspace, hhead]
    simp only [Option.some.injEq, hcolon, if_false]
    exact parseCommand_written hcommand hparams text []
  · intro messagePrefix hnonempty hone
    have hline := @rdropWhile_append (58 :: messagePrefix ++ [32]) _ hnil hends
    have hassoc : 58 :: messagePrefix ++ 32 :: (command ++ (middle params ++ trailing text) ++ [13, 10]) =
        58 :: messagePrefix ++ [32] ++ (command ++ (middle params ++ trailing text)) ++ [13, 10] := by simp
    have hbreaks : Breaks (32 :: (command ++ (middle params ++ trailing text))) := by
      intro character h
      simpa using h.symm
    have hrest : 58 :: messagePrefix ++ [32] ++ (command ++ (middle params ++ trailing text)) =
        58 :: (messagePrefix ++ 32 :: (command ++ (middle params ++ trailing text))) := by simp
    rw [parse, hassoc, hline, hrest, skipSpaces_of_head (by simp)]
    simp only [List.head?_cons, if_true, List.drop_one, List.tail_cons]
    rw [takeUntilSpace_append hone hbreaks]
    simp only [hnonempty, if_false, skipSpaces_cons, if_true]
    rw [skipSpaces_of_head hspace]
    exact parseCommand_written hcommand hparams text messagePrefix

/-- A text that starts with a colon and is otherwise spaces, with and without a prefix. -/
theorem parse_written_privmsg :
    parse (commandLine (utf8 "PRIVMSG") [utf8 "#regno"] (some (utf8 ":  "))) =
      some { command := utf8 "PRIVMSG", params := [utf8 "#regno", utf8 ":  "] } :=
  (parse_written (by constructor <;> decide +kernel)
    (by
      intro param hparam
      rw [List.mem_singleton.mp hparam]
      constructor <;> decide +kernel)
    (by
      intro words hwords
      cases hwords
      decide +kernel)).1

end NorelecBot.Irc
