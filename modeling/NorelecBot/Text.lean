import Mathlib.Algebra.BigOperators.Group.Multiset.Basic
import Mathlib.Algebra.Order.Ring.Int
import Mathlib.Data.Multiset.OrderedMonoid

/-! # Text as the bot handles it: strings of bytes

A `std::string` is a list of bytes; the string literals of the source are UTF-8.
Case and white space are those of the C locale. An emoji is told from the next
one by reading letters: joiners, variation selectors, keycap squares, skin tones
and tags belong to the emoji before them, and two regional letters are one flag.
-/

namespace NorelecBot

abbrev Str := List UInt8

instance : LawfulBEq Str := inferInstance

def utf8 (literal : String) : Str := literal.toList.flatMap String.utf8EncodeChar

namespace Text

def isSpace (character : UInt8) : Bool :=
  character = 32 || (9 ≤ character && character ≤ 13)

def toLower (character : UInt8) : UInt8 :=
  if 65 ≤ character ∧ character ≤ 90 then character + 32 else character

def equalsIgnoreCase : Str → Str → Bool
  | [], [] => true
  | first :: left, second :: right => toLower first = toLower second && equalsIgnoreCase left right
  | _, _ => false

def trim (text : Str) : Str := ((text.dropWhile isSpace).reverse.dropWhile isSpace).reverse

def isDigit (character : UInt8) : Bool := 48 ≤ character && character ≤ 57

/-- The digits of a number, the first before the others. -/
def digitsValue (digits : Str) : ℕ := digits.foldl (fun value digit => 10 * value + (digit.toNat - 48)) 0

/-- A number of 64 bits, written in full. -/
def parseDigits (negative : Bool) (digits : Str) : Option ℤ :=
  if digits = [] ∨ ¬ digits.all isDigit then none
  else
    let value : ℤ := if negative then -digitsValue digits else digitsValue digits
    if value < -2 ^ 63 ∨ 2 ^ 63 ≤ value then none else some value

def parseSigned : Str → Option ℤ
  | 45 :: digits => parseDigits true digits
  | digits => parseDigits false digits

/-- White space around it and one sign are all it may have. -/
def parseInt64 (text : Str) : Option ℤ :=
  match trim text with
  | 43 :: 45 :: _ => none
  | 43 :: digits => parseSigned digits
  | digits => parseSigned digits

theorem equalsIgnoreCase_iff (left right : Str) :
    equalsIgnoreCase left right = true ↔ left.map toLower = right.map toLower := by
  induction left generalizing right with
  | nil => cases right <;> simp [equalsIgnoreCase]
  | cons a left ih => cases right <;> simp [equalsIgnoreCase, ih]

@[simp] theorem equalsIgnoreCase_refl (text : Str) : equalsIgnoreCase text text = true := by
  rw [equalsIgnoreCase_iff]

/-- The codepoint at the front of a text, and how many bytes it takes. -/
structure Letter where
  code : ℕ
  width : ℕ
  deriving DecidableEq, Repr

/-- Read that many continuation bytes into a codepoint; nothing where one is missing. -/
def continuation : ℕ → ℕ → Str → Option ℕ
  | 0, code, _ => some code
  | _ + 1, _, [] => none
  | index + 1, code, next :: text =>
    if next.toNat < 0x80 ∨ next.toNat > 0xBF then none
    else continuation index ((code <<< 6) ||| (next.toNat &&& 0x3F)) text

/-- How many bytes a lead byte announces, and the bits of the codepoint it holds. -/
def leadByte (lead : ℕ) : ℕ × ℕ :=
  if lead &&& 0xE0 = 0xC0 then (2, lead &&& 0x1F)
  else if lead &&& 0xF0 = 0xE0 then (3, lead &&& 0x0F)
  else if lead &&& 0xF8 = 0xF0 then (4, lead &&& 0x07)
  else (1, lead)

/-- A byte that starts nothing well formed is a letter of its own. -/
def letterAt : Str → Letter
  | [] => ⟨0, 0⟩
  | lead :: text =>
    match continuation ((leadByte lead.toNat).1 - 1) (leadByte lead.toNat).2 text with
    | some code => ⟨code, (leadByte lead.toNat).1⟩
    | none => ⟨lead.toNat, 1⟩

/-- What cannot stand on its own: it belongs to the emoji before it. -/
def sticksToTheOneBefore (code : ℕ) : Bool :=
  code = 0x200D || code = 0xFE0F || code = 0xFE0E || code = 0x20E3 ||
    (0x1F3FB ≤ code && code ≤ 0x1F3FF) || (0xE0020 ≤ code && code ≤ 0xE007F)

def isRegional (code : ℕ) : Bool := 0x1F1E6 ≤ code && code ≤ 0x1F1FF

/-- A digit, `#` or `*` is an ornament only when it wears the keycap square. -/
def couldBeKeycap (code : ℕ) : Bool := (48 ≤ code && code ≤ 57) || code = 35 || code = 42

/-- The bytes of the keycap square that must follow, after a variation selector or at once. -/
def keycapWidth (text : Str) : Option ℕ :=
  if text = [] then none
  else if (letterAt text).code = 0xFE0F then
    if text.drop (letterAt text).width = [] then none
    else if (letterAt (text.drop (letterAt text).width)).code ≠ 0x20E3 then none
    else some ((letterAt text).width + (letterAt (text.drop (letterAt text).width)).width)
  else if (letterAt text).code ≠ 0x20E3 then none
  else some (letterAt text).width

/-- The second regional letter of a flag, if one follows the first. -/
def flagWidth (code : ℕ) (text : Str) : ℕ :=
  if isRegional code ∧ text ≠ [] ∧ isRegional (letterAt text).code then (letterAt text).width else 0

/-- Where each emoji begins, counting from `offset`; nothing if something is not an emoji.
The fuel is the length of the text, of which every round takes a byte at least. -/
def findStarts : ℕ → Str → ℕ → Bool → Option (List ℕ)
  | 0, _, _, _ => some []
  | fuel + 1, text, offset, joined =>
    if text = [] then some []
    else if (letterAt text).code < 0x80 then
      if couldBeKeycap (letterAt text).code then
        match keycapWidth (text.drop (letterAt text).width) with
        | none => none
        | some square =>
          (findStarts fuel (text.drop ((letterAt text).width + square))
            (offset + ((letterAt text).width + square)) joined).map (offset :: ·)
      else none
    else if sticksToTheOneBefore (letterAt text).code then
      findStarts fuel (text.drop (letterAt text).width) (offset + (letterAt text).width)
        ((letterAt text).code = 0x200D)
    else if joined then
      -- It follows a zero width joiner: it is part of the emoji before it.
      findStarts fuel (text.drop (letterAt text).width) (offset + (letterAt text).width) false
    else
      let flag := flagWidth (letterAt text).code (text.drop (letterAt text).width)
      (findStarts fuel (text.drop ((letterAt text).width + flag))
        (offset + ((letterAt text).width + flag)) false).map (offset :: ·)

/-- The text cut at those places, each piece running up to the next one. -/
def cutAt (text : Str) : List ℕ → List Str
  | [] => []
  | [start] => [text.drop start]
  | start :: next :: starts => (text.drop start).take (next - start) :: cutAt text (next :: starts)

/-- The emoji of a text one by one. Whatever sticks in front of the first belongs to it. -/
def emojiSplit (text : Str) : Option (List Str) :=
  if trim text = [] then none
  else match findStarts (trim text).length (trim text) 0 false with
    | none => none
    | some [] => none
    | some (_ :: starts) => some (cutAt (trim text) (0 :: starts))

def emojiCount (text : Str) : Option ℕ := (emojiSplit text).map List.length

example : emojiSplit (utf8 "👨‍👩‍👧🍕") = some [utf8 "👨‍👩‍👧", utf8 "🍕"] := by decide
example : emojiSplit (utf8 "🇮🇹🇫🇷") = some [utf8 "🇮🇹", utf8 "🇫🇷"] := by decide

end Text

end NorelecBot
