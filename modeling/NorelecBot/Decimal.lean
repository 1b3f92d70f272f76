import NorelecBot.Identity
import Mathlib.Data.List.TakeWhile

/-! # A number in decimal reads back

`std::format` writes it without a sign; both readers of numbers take it for what it was.
-/

namespace NorelecBot

theorem digit_bounds {digit : Char} (h : digit.isDigit = true) :
    48 ≤ digit.val.toNat ∧ digit.val.toNat ≤ 57 := by
  simpa [Char.isDigit, UInt32.le_iff_toNat_le] using h

/-- A digit of a number is one byte. -/
theorem utf8EncodeChar_digit {digit : Char} (h : digit.isDigit = true) :
    String.utf8EncodeChar digit = [UInt8.ofNat digit.toNat] := by
  have hbounds := digit_bounds h
  simp only [String.utf8EncodeChar]
  rw [if_pos (by omega)]
  rfl

theorem toNat_digit {digit : Char} (h : digit.isDigit = true) :
    (UInt8.ofNat digit.toNat).toNat = digit.toNat := by
  have hbounds := digit_bounds h
  have hsmall : digit.toNat < 256 := by
    change digit.val.toNat < 256
    omega
  rw [UInt8.toNat_ofNat', Nat.mod_eq_of_lt hsmall]

theorem flatMap_digits {digits : List Char} (h : ∀ digit ∈ digits, digit.isDigit = true) :
    digits.flatMap String.utf8EncodeChar = digits.map fun digit => UInt8.ofNat digit.toNat := by
  induction digits with
  | nil => rfl
  | cons digit digits ih =>
    rw [List.flatMap_cons, List.map_cons, utf8EncodeChar_digit (h digit List.mem_cons_self),
      ih fun d hd => h d (List.mem_cons_of_mem digit hd)]
    rfl

theorem digitsValue_map {digits : List Char} (h : ∀ digit ∈ digits, digit.isDigit = true) :
    Text.digitsValue (digits.map fun digit => UInt8.ofNat digit.toNat) = Nat.ofDigitChars 10 digits 0 := by
  rw [Text.digitsValue, Nat.ofDigitChars_eq_foldl, List.foldl_map]
  apply List.foldl_ext
  intro value digit hdigit
  rw [toNat_digit (h digit hdigit)]
  rfl

theorem toDigits_isDigit (value : ℕ) : ∀ digit ∈ Nat.toDigits 10 value, digit.isDigit = true := fun _ hdigit =>
  Nat.isDigit_of_mem_toDigits (by decide) (by decide) hdigit

theorem decimal_eq_map (value : ℕ) :
    decimal value = (Nat.toDigits 10 value).map fun digit => UInt8.ofNat digit.toNat := by
  rw [decimal, if_neg (by omega), List.nil_append, Int.natAbs_natCast, flatMap_digits (toDigits_isDigit value)]

theorem digitsValue_decimal (value : ℕ) : Text.digitsValue (decimal value) = value := by
  rw [decimal_eq_map, digitsValue_map (toDigits_isDigit value), Nat.ofDigitChars_ten_toDigits]

theorem isDigit_decimal (value : ℕ) : ∀ byte ∈ decimal value, Text.isDigit byte = true := by
  rw [decimal_eq_map]
  intro byte hbyte
  obtain ⟨digit, hdigit, rfl⟩ := List.mem_map.mp hbyte
  have hbounds := digit_bounds (toDigits_isDigit value digit hdigit)
  have hsame := toNat_digit (toDigits_isDigit value digit hdigit)
  simp only [Text.isDigit, Bool.and_eq_true, decide_eq_true_eq, UInt8.le_iff_toNat_le, hsame]
  exact hbounds

theorem decimal_ne_nil (value : ℕ) : decimal value ≠ [] := by
  rw [decimal_eq_map, ne_eq, List.map_eq_nil_iff]
  exact Nat.toDigits_ne_nil

section
variable {text : Str} (h : ∀ byte ∈ text, Text.isDigit byte = true)
include h

theorem dropWhile_isSpace_digits : text.dropWhile Text.isSpace = text := by
  cases text with
  | nil => rfl
  | cons byte text =>
    have hdigit := h byte List.mem_cons_self
    rw [List.dropWhile_cons_of_neg]
    simp only [Text.isDigit, Text.isSpace, Bool.and_eq_true, Bool.or_eq_true, decide_eq_true_eq,
      UInt8.le_iff_toNat_le, ← UInt8.toNat_inj] at hdigit ⊢
    simp at hdigit ⊢
    omega

theorem trim_digits : Text.trim text = text := by
  have hback : ∀ byte ∈ text.reverse, Text.isDigit byte = true := fun byte hbyte => h byte (List.mem_reverse.mp hbyte)
  rw [Text.trim, dropWhile_isSpace_digits h, dropWhile_isSpace_digits hback, List.reverse_reverse]

theorem parseInt64_digits : Text.parseInt64 text = Text.parseDigits false text := by
  have hsigned (rest : Str) (hrest : ∀ byte ∈ rest, Text.isDigit byte = true) :
      Text.parseSigned rest = Text.parseDigits false rest := by
    rw [Text.parseSigned.eq_def]
    split
    · exact absurd (hrest 45 List.mem_cons_self) (by decide)
    · rfl
  rw [Text.parseInt64, trim_digits h]
  split
  · exact absurd (h 43 List.mem_cons_self) (by decide)
  · exact absurd (h 43 List.mem_cons_self) (by decide)
  · exact hsigned text h

end

/-- A number of 63 bits is read as it was written. -/
theorem parseInt64_decimal {value : ℕ} (h : value < 2 ^ 63) : Text.parseInt64 (decimal value) = some (value : ℤ) := by
  have hdigits := isDigit_decimal value
  have hall : (decimal value).all Text.isDigit = true := List.all_eq_true.mpr hdigits
  rw [parseInt64_digits hdigits, Text.parseDigits, digitsValue_decimal]
  simp [hall, decimal_ne_nil value]
  omega

end NorelecBot
