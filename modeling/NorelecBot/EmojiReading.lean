import NorelecBot.Lib.Marks
import NorelecBot.Text
import Mathlib.Data.Nat.Init
import Mathlib.Order.Nat

/-! # Telling emoji apart, letter by letter

Bytes are read as letters, and the letters by a reader whose mood says whether a
joiner hangs, whether a flag lacks its second letter and whether a keycap lacks its
square. An emoji begins at each letter that the reader marks.
-/

namespace NorelecBot.Text
open Lib

theorem leadByte_pos (lead : ℕ) : 0 < (leadByte lead).1 := by
  rw [leadByte]
  split_ifs <;> exact Nat.succ_pos _

theorem continuation_eq_some {count code : ℕ} {text : Str} {result : ℕ}
    (h : continuation count code text = some result) : count ≤ text.length := by
  induction count generalizing code text with
  | zero => exact Nat.zero_le _
  | succ count ih =>
    cases text with
    | nil => cases h
    | cons next text =>
      rw [continuation] at h
      split at h
      · cases h
      · exact Nat.succ_le_succ (ih h)

/-- Bytes past the ones it needs do not matter. -/
theorem continuation_append {count code : ℕ} {text : Str} (h : count ≤ text.length) (more : Str) :
    continuation count code (text ++ more) = continuation count code text := by
  induction count generalizing code text with
  | zero => cases text <;> rfl
  | succ count ih =>
    cases text with
    | nil => cases h
    | cons next text =>
      rw [List.cons_append, continuation, continuation, ih (Nat.le_of_succ_le_succ h)]

/-- Nor do they when one of them is wrong. -/
theorem continuation_append_eq_none {count code : ℕ} {text more : Str}
    (h : continuation count code (text ++ more) = none) : continuation count code text = none := by
  induction count generalizing code text with
  | zero =>
    cases text
    · cases more <;> cases h
    · cases h
  | succ count ih =>
    cases text with
    | nil => rfl
    | cons next text =>
      rw [List.cons_append, continuation] at h
      rw [continuation]
      split
      · rfl
      · rename_i hnext
        rw [if_neg hnext] at h
        exact ih h

theorem letterAt_width_pos {text : Str} (h : text ≠ []) : 0 < (letterAt text).width := by
  obtain ⟨lead, text, rfl⟩ := List.exists_cons_of_ne_nil h
  rw [letterAt]
  split
  · exact leadByte_pos _
  · exact Nat.one_pos

theorem letterAt_width_le {text : Str} (h : text ≠ []) : (letterAt text).width ≤ text.length := by
  obtain ⟨lead, text, rfl⟩ := List.exists_cons_of_ne_nil h
  rw [letterAt]
  split
  · rename_i code hcode
    have hle := continuation_eq_some hcode
    rw [List.length_cons]
    dsimp only
    omega
  · exact Nat.succ_le_succ (Nat.zero_le _)

/-- A letter that fits in the text before is the same with more text behind. -/
theorem letterAt_append {text more : Str} (hne : text ≠ []) (h : (letterAt (text ++ more)).width ≤ text.length) :
    letterAt (text ++ more) = letterAt text := by
  obtain ⟨lead, text, rfl⟩ := List.exists_cons_of_ne_nil hne
  rw [List.cons_append, letterAt] at h ⊢
  rw [letterAt]
  cases hwide : continuation ((leadByte lead.toNat).1 - 1) (leadByte lead.toNat).2 (text ++ more) with
  | none => rw [continuation_append_eq_none hwide]
  | some code =>
    rw [hwide] at h
    have hfits : (leadByte lead.toNat).1 - 1 ≤ text.length := by
      rw [List.length_cons] at h
      dsimp only at h
      omega
    rw [continuation_append hfits] at hwide
    rw [hwide]

/-- The fuel is the length of the text, of which every letter takes a byte at least. -/
def readLetters : ℕ → Str → List Letter
  | 0, _ => []
  | fuel + 1, text =>
    if text = [] then []
    else letterAt text :: readLetters fuel (text.drop (letterAt text).width)

def lettersOf (text : Str) : List Letter := readLetters text.length text

theorem readLetters_fuel {fuel : ℕ} {text : Str} (h : text.length ≤ fuel) : readLetters fuel text = lettersOf text := by
  have hmore (fuel fuel' : ℕ) (text : Str) (h : text.length ≤ fuel) (h' : text.length ≤ fuel') :
      readLetters fuel text = readLetters fuel' text := by
    induction fuel generalizing fuel' text with
    | zero =>
      obtain rfl := List.length_eq_zero_iff.mp (Nat.le_zero.mp h)
      cases fuel' <;> rfl
    | succ fuel ih =>
      by_cases hnil : text = []
      · subst hnil
        cases fuel' <;> rfl
      · have hpos := letterAt_width_pos hnil
        have hlength := List.length_pos_iff.mpr hnil
        obtain ⟨fuel', rfl⟩ := Nat.exists_eq_succ_of_ne_zero (show fuel' ≠ 0 by omega)
        rw [readLetters, readLetters, if_neg hnil, if_neg hnil]
        rw [ih fuel' _ (by rw [List.length_drop]; omega) (by rw [List.length_drop]; omega)]
  exact hmore fuel text.length text h le_rfl

@[simp] theorem lettersOf_nil : lettersOf [] = [] := rfl

theorem lettersOf_cons {text : Str} (h : text ≠ []) :
    lettersOf text = letterAt text :: lettersOf (text.drop (letterAt text).width) := by
  have hpos := letterAt_width_pos h
  have hlength := List.length_pos_iff.mpr h
  obtain ⟨fuel, hfuel⟩ := Nat.exists_eq_succ_of_ne_zero hlength.ne'
  rw [lettersOf, hfuel, readLetters, if_neg h, readLetters_fuel (by rw [List.length_drop]; omega)]

theorem lettersOf_ne_nil {text : Str} (h : text ≠ []) : lettersOf text ≠ [] := by
  rw [lettersOf_cons h]
  exact List.cons_ne_nil _ _

/-- An induction over the letters of a text. -/
theorem letters_induction {motive : Str → Prop} (nil : motive [])
    (letter : ∀ text, text ≠ [] → motive (text.drop (letterAt text).width) → motive text) (text : Str) :
    motive text := by
  generalize hlength : text.length = length
  induction length using Nat.strongRecOn generalizing text with
  | ind length ih =>
    by_cases h : text = []
    · exact h ▸ nil
    · have hpos := letterAt_width_pos h
      have hsome := List.length_pos_iff.mpr h
      exact letter text h (ih _ (by rw [List.length_drop]; omega) _ rfl)

theorem width_pos_of_mem (text : Str) : ∀ letter ∈ lettersOf text, 0 < letter.width := by
  induction text using letters_induction with
  | nil => exact nofun
  | letter text h ih =>
    rw [lettersOf_cons h]
    intro letter hletter
    rcases List.mem_cons.mp hletter with rfl | hrest
    · exact letterAt_width_pos h
    · exact ih letter hrest

@[simp] theorem textWidth_lettersOf (text : Str) : textWidth Letter.width (lettersOf text) = text.length := by
  induction text using letters_induction with
  | nil => rfl
  | letter text h ih =>
    rw [lettersOf_cons h, textWidth_cons, ih, List.length_drop]
    have hle := letterAt_width_le h
    omega

/-- Where a text can be cut between two letters, both parts read as they do together. -/
theorem lettersOf_split {text more : Str} {first rest : List Letter}
    (h : lettersOf (text ++ more) = first ++ rest) (hwidth : textWidth Letter.width first = text.length) :
    lettersOf text = first ∧ lettersOf more = rest := by
  induction first generalizing text with
  | nil =>
    obtain rfl := List.length_eq_zero_iff.mp hwidth.symm
    exact ⟨rfl, h⟩
  | cons letter first ih =>
    rw [textWidth_cons] at hwidth
    have hne : text ++ more ≠ [] := by
      rintro hnil
      rw [hnil] at h
      cases h
    rw [lettersOf_cons hne] at h
    obtain ⟨rfl, hrest⟩ := List.cons.inj h
    have hpos := letterAt_width_pos hne
    have htext : text ≠ [] := by
      rintro rfl
      rw [List.length_nil] at hwidth
      omega
    have hle : (letterAt (text ++ more)).width ≤ text.length := by omega
    have hletter := letterAt_append htext hle
    rw [hletter] at hrest hle hwidth ⊢
    rw [List.drop_append_of_le_length hle] at hrest
    obtain ⟨hfirst, hmore⟩ := ih hrest (by rw [List.length_drop]; omega)
    exact ⟨by rw [lettersOf_cons htext, hfirst], hmore⟩

/-- What the letters read so far leave open. -/
inductive Mood where
  /-- Nothing, or a joiner that takes in the next letter. -/
  | free (joined : Bool)
  /-- The second letter of a flag. -/
  | halfFlag
  /-- What dresses a digit: its square, or a variation selector and then the square. -/
  | digit (joined : Bool)
  | dressed (joined : Bool)
  deriving DecidableEq, Repr

def Mood.settled : Mood → Bool
  | .free _ => true
  | .halfFlag => true
  | .digit _ => false
  | .dressed _ => false

def Mood.joined : Mood → Bool
  | .free joined => joined
  | .halfFlag => false
  | .digit joined => joined
  | .dressed joined => joined

def readFree (joined : Bool) (code : ℕ) : Option (Bool × Mood) :=
  if code < 0x80 then if couldBeKeycap code then some (true, .digit joined) else none
  else if sticksToTheOneBefore code then some (false, .free (code = 0x200D))
  else if joined then some (false, .free false)
  else some (true, if isRegional code then .halfFlag else .free false)

/-- Whether an emoji begins at a letter, and the mood after it; nothing for what is no emoji. -/
def readEmoji : Mood → ℕ → Option (Bool × Mood)
  | .free joined, code => readFree joined code
  | .halfFlag, code => if isRegional code then some (false, .free false) else readFree false code
  | .digit joined, code =>
    if code = 0xFE0F then some (false, .dressed joined)
    else if code = 0x20E3 then some (false, .free joined) else none
  | .dressed joined, code => if code = 0x20E3 then some (false, .free joined) else none

def readLetter (mood : Mood) (letter : Letter) : Option (Bool × Mood) := readEmoji mood letter.code

abbrev reading : Mood → List Letter → Option (List Bool × Mood) := readAll readLetter

theorem reading_cons {mood next : Mood} {letter : Letter} {begins : Bool} (letters : List Letter)
    (h : readLetter mood letter = some (begins, next)) :
    reading mood (letter :: letters) = (reading next letters).map fun rest => (begins :: rest.1, rest.2) :=
  readAll_cons h

theorem reading_cons_eq_some {mood last : Mood} {letter : Letter} {letters : List Letter} {marks : List Bool}
    (h : reading mood (letter :: letters) = some (marks, last)) :
    ∃ begins next others, readLetter mood letter = some (begins, next) ∧
      reading next letters = some (others, last) ∧ marks = begins :: others := readAll_cons_eq_some h

theorem reading_append (mood : Mood) (letters more : List Letter) : reading mood (letters ++ more) =
    (reading mood letters).bind fun first => (reading first.2 more).map fun rest => (first.1 ++ rest.1, rest.2) :=
  readAll_append mood letters more

theorem reading_append_eq_some {mood last : Mood} {letters more : List Letter} {marks : List Bool}
    (h : reading mood (letters ++ more) = some (marks, last)) :
    ∃ first middle rest, reading mood letters = some (first, middle) ∧
      reading middle more = some (rest, last) ∧ marks = first ++ rest := readAll_append_eq_some h

/-- Where the emoji of some letters begin, if they can end there. -/
def beginnings (offset : ℕ) (mood : Mood) (letters : List Letter) : Option (List ℕ) :=
  (reading mood letters).bind fun result =>
    if result.2.settled then some (marked Letter.width offset letters result.1) else none

theorem beginnings_cons (offset : ℕ) (mood : Mood) (letter : Letter) (letters : List Letter) :
    beginnings offset mood (letter :: letters) =
      (readEmoji mood letter.code).bind fun first =>
        (beginnings (offset + letter.width) first.2 letters).map fun starts =>
          if first.1 then offset :: starts else starts := by
  rw [beginnings, reading, readAll, readLetter]
  cases readEmoji mood letter.code with
  | none => rfl
  | some first =>
    rw [Option.bind_some, Option.bind_some, beginnings, Option.bind_map, Option.map_bind]
    refine congrArg (Option.bind _) (funext fun rest => ?_)
    simp only [Function.comp_apply, marked]
    split
    · split <;> rfl
    · rfl

theorem beginnings_skip {offset : ℕ} {mood next : Mood} {letter : Letter} (letters : List Letter)
    (h : readEmoji mood letter.code = some (false, next)) :
    beginnings offset mood (letter :: letters) = beginnings (offset + letter.width) next letters := by
  rw [beginnings_cons, h, Option.bind_some]
  exact Option.map_id'

theorem beginnings_begin {offset : ℕ} {mood next : Mood} {letter : Letter} (letters : List Letter)
    (h : readEmoji mood letter.code = some (true, next)) : beginnings offset mood (letter :: letters) =
      (beginnings (offset + letter.width) next letters).map (offset :: ·) := by
  rw [beginnings_cons, h, Option.bind_some]
  rfl

theorem beginnings_none {offset : ℕ} {mood : Mood} {letter : Letter} (letters : List Letter)
    (h : readEmoji mood letter.code = none) : beginnings offset mood (letter :: letters) = none := by
  rw [beginnings_cons, h]
  rfl

/-- A flag whose second letter does not come is an emoji like any other. -/
theorem beginnings_halfFlag {offset : ℕ} {letters : List Letter}
    (h : ∀ letter, letters.head? = some letter → isRegional letter.code = false) :
    beginnings offset .halfFlag letters = beginnings offset (.free false) letters := by
  cases letters with
  | nil => rfl
  | cons letter letters =>
    have hsame : readEmoji .halfFlag letter.code = readEmoji (.free false) letter.code := by
      simp only [readEmoji, h letter rfl, Bool.false_eq_true, if_false]
    rw [beginnings_cons, beginnings_cons, hsame]

/-- What dresses a digit is the square of its keycap. -/
theorem beginnings_digit (offset : ℕ) (joined : Bool) (text : Str) :
    beginnings offset (.digit joined) (lettersOf text) =
      (keycapWidth text).bind fun square =>
        beginnings (offset + square) (.free joined) (lettersOf (text.drop square)) := by
  rw [keycapWidth]
  split
  · rename_i hnil
    rw [hnil]
    rfl
  · rename_i hne
    rw [lettersOf_cons hne]
    by_cases hvariation : (letterAt text).code = 0xFE0F
    · rw [if_pos hvariation, beginnings_skip _ (by rw [readEmoji, if_pos hvariation])]
      generalize hrest : text.drop (letterAt text).width = rest
      by_cases hnil : rest = []
      · rw [if_pos hnil, hnil]
        rfl
      · rw [if_neg hnil, lettersOf_cons hnil]
        by_cases hsquare : (letterAt rest).code = 0x20E3
        · rw [if_neg (not_not.mpr hsquare), beginnings_skip _ (by rw [readEmoji, if_pos hsquare]), Option.bind_some,
            ← hrest, List.drop_drop, Nat.add_assoc]
        · rw [if_pos hsquare, beginnings_none _ (by rw [readEmoji, if_neg hsquare])]
          rfl
    · rw [if_neg hvariation]
      by_cases hsquare : (letterAt text).code = 0x20E3
      · rw [if_neg (not_not.mpr hsquare), Option.bind_some,
          beginnings_skip _ (by rw [readEmoji, if_neg hvariation, if_pos hsquare])]
      · rw [if_pos hsquare, beginnings_none _ (by rw [readEmoji, if_neg hvariation, if_neg hsquare])]
        rfl

/-- Looking ahead for the second letter of a flag comes to the same as waiting for it. -/
theorem beginnings_flag (offset : ℕ) (code : ℕ) (text : Str) :
    beginnings offset (if isRegional code then .halfFlag else .free false) (lettersOf text) =
      beginnings (offset + flagWidth code text) (.free false) (lettersOf (text.drop (flagWidth code text))) := by
  rw [flagWidth]
  split
  · rename_i hregional
    by_cases hsecond : text ≠ [] ∧ isRegional (letterAt text).code
    · rw [if_pos ⟨hregional, hsecond⟩, lettersOf_cons hsecond.1,
        beginnings_skip _ (by rw [readEmoji, if_pos hsecond.2])]
    · rw [if_neg fun h => hsecond h.2, Nat.add_zero, List.drop_zero]
      refine beginnings_halfFlag fun letter hletter => ?_
      by_cases hnil : text = []
      · rw [hnil] at hletter
        cases hletter
      · rw [lettersOf_cons hnil] at hletter
        cases hletter
        exact Bool.eq_false_iff.mpr fun h => hsecond ⟨hnil, h⟩
  · rename_i hregional
    rw [if_neg fun h => hregional h.1, Nat.add_zero, List.drop_zero]

theorem findStarts_eq {fuel : ℕ} {text : Str} (h : text.length ≤ fuel) (offset : ℕ) (joined : Bool) :
    findStarts fuel text offset joined = beginnings offset (.free joined) (lettersOf text) := by
  induction fuel generalizing text offset joined with
  | zero =>
    obtain rfl := List.length_eq_zero_iff.mp (Nat.le_zero.mp h)
    rfl
  | succ fuel ih =>
    rw [findStarts]
    split
    · rename_i hnil
      rw [hnil]
      rfl
    · rename_i hne
      have hpos := letterAt_width_pos hne
      have hshort (count : ℕ) (hcount : 0 < count) : (text.drop count).length ≤ fuel := by
        rw [List.length_drop]
        have := List.length_pos_iff.mpr hne
        omega
      rw [lettersOf_cons hne]
      by_cases hplain : (letterAt text).code < 0x80
      · rw [if_pos hplain]
        by_cases hkeycap : couldBeKeycap (letterAt text).code
        · rw [if_pos hkeycap, beginnings_begin _ (by rw [readEmoji, readFree, if_pos hplain, if_pos hkeycap]),
            beginnings_digit]
          cases keycapWidth (text.drop (letterAt text).width) with
          | none => rfl
          | some square =>
            dsimp only
            rw [ih (hshort _ (by omega)), Option.bind_some, List.drop_drop, Nat.add_assoc]
        · rw [if_neg hkeycap, beginnings_none _ (by rw [readEmoji, readFree, if_pos hplain, if_neg hkeycap])]
      · rw [if_neg hplain]
        by_cases hsticks : sticksToTheOneBefore (letterAt text).code
        · rw [if_pos hsticks, ih (hshort _ hpos),
            beginnings_skip _ (by rw [readEmoji, readFree, if_neg hplain, if_pos hsticks])]
        · rw [if_neg hsticks]
          by_cases hjoined : joined = true
          · rw [if_pos hjoined, ih (hshort _ hpos),
              beginnings_skip _ (by rw [readEmoji, readFree, if_neg hplain, if_neg hsticks, if_pos hjoined])]
          · rw [if_neg hjoined,
              beginnings_begin _ (by rw [readEmoji, readFree, if_neg hplain, if_neg hsticks, if_neg hjoined])]
            dsimp only
            rw [ih (hshort _ (by omega)), beginnings_flag, List.drop_drop, Nat.add_assoc]

/-- The letters that are not in a keycap, which runs from its digit up to the square. -/
def looseLetters : Bool → List Letter → List Letter
  | _, [] => []
  | true, letter :: letters => looseLetters (letter.code ≠ 0x20E3) letters
  | false, letter :: letters =>
    if letter.code < 0x80 then looseLetters true letters else letter :: looseLetters false letters

/-- Whether a joiner is left hanging, which no keycap takes up. -/
def hangingJoiner (letters : List Letter) : Bool :=
  (looseLetters false letters).getLast?.any fun letter => letter.code = 0x200D

def Mood.inKeycap : Mood → Bool
  | .free _ => false
  | .halfFlag => false
  | .digit _ => true
  | .dressed _ => true

theorem isRegional_ge {code : ℕ} (h : isRegional code = true) : ¬ code < 0x80 := by
  simp only [isRegional, Bool.and_eq_true, decide_eq_true_eq] at h
  omega

theorem readFree_loose {joined begins : Bool} {letter : Letter} {next : Mood}
    (h : readFree joined letter.code = some (begins, next)) :
    (letter.code < 0x80 ∧ next.inKeycap = true ∧ next.joined = joined) ∨
      (¬ letter.code < 0x80 ∧ next.inKeycap = false ∧ next.joined = decide (letter.code = 0x200D)) := by
  rw [readFree] at h
  split at h
  · rename_i hplain
    split at h
    · cases h
      exact .inl ⟨hplain, rfl, rfl⟩
    · cases h
  · rename_i hplain
    refine .inr ⟨hplain, ?_⟩
    split at h
    · cases h
      exact ⟨rfl, rfl⟩
    · rename_i hsticks
      have hjoiner : decide (letter.code = 0x200D) = false := by
        refine decide_eq_false fun hcode => hsticks ?_
        rw [hcode]
        decide
      rw [hjoiner]
      split at h
      · cases h
        exact ⟨rfl, rfl⟩
      · cases h
        split <;> exact ⟨rfl, rfl⟩

theorem reading_joined {mood last : Mood} {letters : List Letter} {marks : List Bool}
    (h : reading mood letters = some (marks, last)) :
    last.joined = (looseLetters mood.inKeycap letters).getLast?.elim mood.joined
      fun letter => decide (letter.code = 0x200D) := by
  induction letters generalizing mood marks with
  | nil =>
    cases h
    cases last.inKeycap <;> rfl
  | cons letter letters ih =>
    obtain ⟨begins, next, others, hfirst, hrest, -⟩ := reading_cons_eq_some h
    have hnext := ih hrest
    have hfree (hkey : mood.inKeycap = false)
        (hloose : (letter.code < 0x80 ∧ next.inKeycap = true ∧ next.joined = mood.joined) ∨
          (¬ letter.code < 0x80 ∧ next.inKeycap = false ∧ next.joined = decide (letter.code = 0x200D))) :
        last.joined = (looseLetters mood.inKeycap (letter :: letters)).getLast?.elim mood.joined
          fun letter => decide (letter.code = 0x200D) := by
      rw [hkey, looseLetters]
      rcases hloose with ⟨hplain, hkeycap, hjoined⟩ | ⟨hplain, hkeycap, hjoined⟩
      · rw [if_pos hplain, hnext, hkeycap, hjoined]
      · rw [if_neg hplain, hnext, hkeycap, hjoined]
        rcases hmore : looseLetters false letters with _ | ⟨second, more⟩
        · rfl
        · rw [List.getLast?_cons_cons]
          rw [List.getLast?_eq_some_getLast (List.cons_ne_nil second more)]
          rfl
    cases mood with
    | free joined => exact hfree rfl (readFree_loose hfirst)
    | halfFlag =>
      rw [readLetter, readEmoji] at hfirst
      split at hfirst
      · rename_i hregional
        cases hfirst
        refine hfree rfl (.inr ⟨isRegional_ge hregional, rfl, ?_⟩)
        refine (decide_eq_false fun hcode => ?_).symm
        rw [hcode] at hregional
        exact absurd hregional (by decide)
      · exact hfree rfl (readFree_loose hfirst)
    | digit joined =>
      rw [readLetter, readEmoji] at hfirst
      split at hfirst
      · rename_i hvariation
        cases hfirst
        rw [hnext, Mood.inKeycap, Mood.inKeycap, looseLetters, hvariation]
        rfl
      · split at hfirst
        · rename_i hsquare
          cases hfirst
          rw [hnext, Mood.inKeycap, Mood.inKeycap, looseLetters, hsquare]
          rfl
        · cases hfirst
    | dressed joined =>
      rw [readLetter, readEmoji] at hfirst
      split at hfirst
      · rename_i hsquare
        cases hfirst
        rw [hnext, Mood.inKeycap, Mood.inKeycap, looseLetters, hsquare]
        rfl
      · cases hfirst

/-- Read from the start, a joiner hangs in the mood when one hangs in the letters. -/
theorem reading_hanging {last : Mood} {letters : List Letter} {marks : List Bool}
    (h : reading (.free false) letters = some (marks, last)) : last.joined = hangingJoiner letters := by
  rw [reading_joined h, hangingJoiner, Mood.inKeycap]
  cases (looseLetters false letters).getLast? <;> rfl

end NorelecBot.Text
