import Mathlib.Data.List.Basic
import Mathlib.Data.List.Infix

/-! # Where UTF-8 can be cut

A character is one small byte, or a lead byte and one to three continuation bytes.
Bytes that are valid stay valid on both sides of a cut that does not fall before a
continuation byte.
-/

namespace NorelecBot.Lib.Utf8

def Continues (byte : UInt8) : Prop := 0x80 ≤ byte.toNat ∧ byte.toNat ≤ 0xBF

def Valid (bytes : List UInt8) : Prop := ByteArray.IsValidUTF8 bytes.toByteArray

theorem valid_iff {bytes : List UInt8} :
    Valid bytes ↔ ∃ letters : List Char, bytes = letters.flatMap String.utf8EncodeChar := by
  constructor
  · rintro ⟨letters, hletters⟩
    refine ⟨letters, ?_⟩
    rw [List.utf8Encode] at hletters
    simpa using congrArg (fun array => array.data.toList) hletters
  · rintro ⟨letters, rfl⟩
    exact ⟨letters, rfl⟩

/-- What the bytes of a character look like. -/
inductive Shape : List UInt8 → Prop
  | small (byte : UInt8) (h : byte.toNat < 0x80) : Shape [byte]
  | two (lead second : UInt8) (h : 0xC0 ≤ lead.toNat ∧ lead.toNat < 0xE0) (hsecond : Continues second) :
      Shape [lead, second]
  | three (lead second third : UInt8) (h : 0xE0 ≤ lead.toNat) (hsecond : Continues second) (hthird : Continues third) :
      Shape [lead, second, third]
  | four (lead second third fourth : UInt8) (h : 0xE0 ≤ lead.toNat) (hsecond : Continues second)
      (hthird : Continues third) (hfourth : Continues fourth) : Shape [lead, second, third, fourth]

theorem continues_ofNat (value : ℕ) : Continues (UInt8.ofNat (value % 0x40 + 0x80)) := by
  rw [Continues, UInt8.toNat_ofNat']
  omega

theorem shape_encodeChar (letter : Char) : Shape (String.utf8EncodeChar letter) := by
  have hvalid : letter.val.toNat < 0x110000 := by
    rcases letter.valid with h | h
    · exact lt_trans h (by decide)
    · exact h.2
  simp only [String.utf8EncodeChar]
  split_ifs with hsmall htwo hthree
  · apply Shape.small
    rw [UInt8.toNat_ofNat']
    omega
  · apply Shape.two _ _ _ (continues_ofNat _)
    rw [UInt8.toNat_ofNat']
    omega
  · apply Shape.three _ _ _ _ (continues_ofNat _) (continues_ofNat _)
    rw [UInt8.toNat_ofNat']
    omega
  · apply Shape.four _ _ _ _ _ (continues_ofNat _) (continues_ofNat _) (continues_ofNat _)
    rw [UInt8.toNat_ofNat']
    omega

/-- A lead byte that continues nothing, and then at most three that do. -/
theorem Shape.split {bytes : List UInt8} (h : Shape bytes) :
    ∃ lead rest, bytes = lead :: rest ∧ ¬ Continues lead ∧ rest.length ≤ 3 ∧ (∀ byte ∈ rest, Continues byte) ∧
      (lead.toNat < 0x80 → rest = []) := by
  cases h with
  | small byte h => exact ⟨byte, [], rfl, by rw [Continues]; omega, by simp, by simp, by simp⟩
  | two lead second h hsecond =>
    exact ⟨lead, [second], rfl, by rw [Continues]; omega, by simp, by simpa using hsecond, by omega⟩
  | three lead second third h hsecond hthird =>
    exact ⟨lead, [second, third], rfl, by rw [Continues]; omega, by simp, by simp [hsecond, hthird], by omega⟩
  | four lead second third fourth h hsecond hthird hfourth =>
    exact ⟨lead, [second, third, fourth], rfl, by rw [Continues]; omega, by simp,
      by simp [hsecond, hthird, hfourth], by omega⟩

theorem valid_nil : Valid [] := valid_iff.mpr ⟨[], rfl⟩

theorem valid_encodeChar (letter : Char) : Valid (String.utf8EncodeChar letter) := valid_iff.mpr ⟨[letter], by simp⟩

theorem Valid.append {before after : List UInt8} (h : Valid before) (hafter : Valid after) :
    Valid (before ++ after) := by
  obtain ⟨letters, rfl⟩ := valid_iff.mp h
  obtain ⟨more, rfl⟩ := valid_iff.mp hafter
  exact valid_iff.mpr ⟨letters ++ more, by simp⟩

/-- Valid bytes come a character at a time. -/
theorem Valid.letters {motive : (bytes : List UInt8) → Valid bytes → Prop} (nil : motive [] valid_nil)
    (cons : ∀ letter rest, Shape letter → ∀ (hletter : Valid letter) (hrest : Valid rest), motive rest hrest →
      motive (letter ++ rest) (hletter.append hrest)) {bytes : List UInt8} (h : Valid bytes) : motive bytes h := by
  obtain ⟨letters, rfl⟩ := valid_iff.mp h
  induction letters with
  | nil => exact nil
  | cons letter letters ih =>
    have hrest : Valid (letters.flatMap String.utf8EncodeChar) := valid_iff.mpr ⟨letters, rfl⟩
    exact cons _ _ (shape_encodeChar letter) (valid_encodeChar letter) hrest (ih hrest)

theorem Valid.head {bytes : List UInt8} (h : Valid bytes) : ∀ byte ∈ bytes.head?, ¬ Continues byte := by
  induction h using Valid.letters with
  | nil => simp
  | cons letter rest hshape _ _ _ =>
    obtain ⟨lead, more, rfl, hlead, -⟩ := hshape.split
    intro byte hbyte
    simp only [List.cons_append, List.head?_cons, Option.mem_def, Option.some.injEq] at hbyte
    exact hbyte ▸ hlead

/-- Both sides of a cut that no continuation byte follows. -/
theorem Valid.cut {bytes : List UInt8} (h : Valid bytes) {cut : ℕ}
    (hcut : ∀ byte ∈ bytes[cut]?, ¬ Continues byte) : Valid (bytes.take cut) ∧ Valid (bytes.drop cut) := by
  induction h using Valid.letters generalizing cut with
  | nil => simp [valid_nil]
  | cons letter rest hshape hletter hrest ih =>
    by_cases hzero : cut = 0
    · subst hzero
      exact ⟨valid_nil, hletter.append hrest⟩
    · by_cases hinside : cut < letter.length
      · exfalso
        obtain ⟨lead, more, rfl, -, -, hmore, -⟩ := hshape.split
        obtain ⟨place, rfl⟩ := Nat.exists_eq_succ_of_ne_zero hzero
        have hplace : place < more.length := by simpa using hinside
        apply hcut more[place]
        · rw [List.getElem?_append_left hinside]
          simp [hplace]
        · exact hmore _ (List.getElem_mem hplace)
      · have hrest' := @ih (cut - letter.length) (by
          rw [List.getElem?_append_right (by omega)] at hcut
          exact hcut)
        rw [List.take_append, List.drop_append, List.take_of_length_le (by omega),
          List.drop_eq_nil_of_le (by omega), List.nil_append]
        exact ⟨hletter.append hrest'.1, hrest'.2⟩

theorem Valid.of_append {before after : List UInt8} (h : Valid (before ++ after))
    (hafter : ∀ byte ∈ after.head?, ¬ Continues byte) : Valid before ∧ Valid after := by
  have hcut := @Valid.cut _ h before.length (by
    rwa [List.getElem?_append_right le_rfl, Nat.sub_self, ← List.head?_eq_getElem?])
  simpa using hcut

/-- A small byte is a character of its own. -/
theorem Valid.tail {byte : UInt8} {bytes : List UInt8} (h : Valid (byte :: bytes)) (hsmall : byte.toNat < 0x80) :
    Valid bytes := by
  obtain ⟨letters, hletters⟩ := valid_iff.mp h
  cases letters with
  | nil => cases hletters
  | cons letter letters =>
    obtain ⟨lead, more, hshape, -, -, -, hmore⟩ := (shape_encodeChar letter).split
    rw [List.flatMap_cons, hshape, List.cons_append, List.cons.injEq] at hletters
    rw [hmore (hletters.1 ▸ hsmall), List.nil_append] at hletters
    exact valid_iff.mpr ⟨letters, hletters.2⟩

/-- Four bytes in a row are not all inside characters. -/
theorem Valid.exists_start {bytes : List UInt8} (h : Valid bytes) {index : ℕ} (hindex : index + 4 ≤ bytes.length) :
    ∃ place, index ≤ place ∧ place < index + 4 ∧ ∀ byte ∈ bytes[place]?, ¬ Continues byte := by
  induction h using Valid.letters generalizing index with
  | nil => simp at hindex
  | cons letter rest hshape _ hrest ih =>
    obtain ⟨lead, more, rfl, hlead, hmore, -⟩ := hshape.split
    by_cases hzero : index = 0
    · refine ⟨0, by omega, by omega, ?_⟩
      simpa using hlead
    · rw [List.length_append, List.length_cons] at hindex
      by_cases hinside : index < (lead :: more).length
      · rw [List.length_cons] at hinside
        refine ⟨(lead :: more).length, by simp; omega, by simp; omega, ?_⟩
        rw [List.getElem?_append_right le_rfl, Nat.sub_self, ← List.head?_eq_getElem?]
        exact hrest.head
      · rw [List.length_cons] at hinside
        obtain ⟨place, hle, hlt, hplace⟩ := @ih (index - (lead :: more).length) (by simp; omega)
        simp only [List.length_cons] at hle hlt
        refine ⟨place + (lead :: more).length, by simp; omega, by simp; omega, ?_⟩
        rwa [List.getElem?_append_right (by omega), Nat.add_sub_cancel]

end NorelecBot.Lib.Utf8
