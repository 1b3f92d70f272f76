import NorelecBot.Edits
import NorelecBot.SlotRoundTrip

/-! # Emoji that never run into one another

A kind of emoji that any slots may hold: each of them is told apart whatever stands
beside it. The emoji the game hangs by itself are of this kind.
-/

namespace NorelecBot
open Lib Text

/-- A lead byte whose letter lacks a byte reads as a letter of its own. -/
def Text.Letter.broken (letter : Letter) : Bool :=
  letter.width = 1 && (0xC0 ≤ letter.code && letter.code < 0xF8)

/-- One emoji whose first letter does not stick, that leaves no joiner hanging and no flag half open. -/
structure Clean (text : Str) : Prop where
  one : OneEmoji text
  unbroken : ∀ letter ∈ lettersOf text, letter.broken = false
  starts : sticksToTheOneBefore (letterAt text).code = false
  joiner : hangingJoiner (lettersOf text) = false
  flag : ¬ HalfAFlag text

theorem leadByte_range : ∀ lead < 256, (leadByte lead).1 ≠ 1 → 0xC0 ≤ lead ∧ lead < 0xF8 := by
  decide +kernel

/-- With all its bytes there, a letter is the same whatever follows. -/
theorem letterAt_unbroken {text : Str} (hne : text ≠ []) (h : (letterAt text).broken = false) (more : Str) :
    letterAt (text ++ more) = letterAt text := by
  obtain ⟨lead, text, rfl⟩ := List.exists_cons_of_ne_nil hne
  rw [List.cons_append, letterAt, letterAt]
  rw [letterAt] at h
  cases hcode : continuation ((leadByte lead.toNat).1 - 1) (leadByte lead.toNat).2 text with
  | some code => rw [continuation_append (continuation_eq_some hcode), hcode]
  | none =>
    rw [hcode] at h
    by_cases hone : (leadByte lead.toNat).1 = 1
    · rw [hone] at hcode
      cases text <;> cases hcode
    · obtain ⟨hleast, hmost⟩ := leadByte_range _ lead.toNat_lt hone
      simp [Letter.broken] at h
      omega

theorem lettersOf_append {text : Str} (h : ∀ letter ∈ lettersOf text, letter.broken = false) (more : Str) :
    lettersOf (text ++ more) = lettersOf text ++ lettersOf more := by
  induction text using letters_induction with
  | nil => rfl
  | letter text hne ih =>
    rw [lettersOf_cons hne] at h ⊢
    have hsame := letterAt_unbroken hne (h _ List.mem_cons_self) more
    rw [lettersOf_cons (by simp [hne]), hsame, List.drop_append_of_le_length (letterAt_width_le hne),
      ih fun letter hletter => h letter (List.mem_cons_of_mem _ hletter), List.cons_append]

/-- Nothing is left open behind it. -/
theorem Clean.reads {text : Str} (h : Clean text) :
    ∃ marks, reading (.free false) (lettersOf text) = some (marks, .free false) := by
  obtain ⟨hne, -, marks, last, halone⟩ := h.one.facts
  have hjoined := reading_hanging halone.reads
  have hflag : last ≠ .halfFlag := fun hlast => h.flag ((halone.halfFlag hne).mp hlast)
  have hsettled := halone.settled
  have hreads := halone.reads
  rw [h.joiner] at hjoined
  cases last with
  | free joined =>
    cases hjoined
    exact ⟨marks, hreads⟩
  | halfFlag => exact absurd rfl hflag
  | digit joined => cases hsettled
  | dressed joined => cases hsettled

theorem clean_of_reading {text : Str} (hone : OneEmoji text)
    (hunbroken : ∀ letter ∈ lettersOf text, letter.broken = false)
    (hstarts : sticksToTheOneBefore (letterAt text).code = false)
    (hmood : (reading (.free false) (lettersOf text)).map Prod.snd = some (.free false)) : Clean text := by
  obtain ⟨hne, -, marks, last, halone⟩ := hone.facts
  rw [halone.reads] at hmood
  obtain rfl := Option.some.inj hmood
  refine ⟨hone, hunbroken, hstarts, (reading_hanging halone.reads).symm, fun hflag => ?_⟩
  cases (halone.halfFlag hne).mpr hflag

theorem reads_clean {pieces : List Str} (h : ∀ piece ∈ pieces, Clean piece) :
    ∃ marks, reading (.free false) (pieces.flatMap lettersOf) = some (marks, .free false) := by
  induction pieces with
  | nil => exact ⟨[], rfl⟩
  | cons piece pieces ih =>
    obtain ⟨marks, hpiece⟩ := (h piece List.mem_cons_self).reads
    obtain ⟨others, hpieces⟩ := ih fun other hother => h other (List.mem_cons_of_mem _ hother)
    refine ⟨marks ++ others, ?_⟩
    rw [List.flatMap_cons, reading_append, hpiece, Option.bind_some, hpieces]
    rfl

theorem standApart_clean {pieces : List Str} (h : ∀ piece ∈ pieces, Clean piece) : StandApart pieces := by
  constructor
  · induction pieces with
    | nil => rfl
    | cons piece pieces ih =>
      rw [List.flatten_cons, lettersOf_append (h piece List.mem_cons_self).unbroken, List.flatMap_cons,
        ih fun other hother => h other (List.mem_cons_of_mem _ hother)]
  · rintro before next after rfl -
    obtain ⟨marks, hreads⟩ := reads_clean fun piece hpiece => h piece (List.mem_append_left _ hpiece)
    refine ⟨(h next (by simp)).starts, fun hjoiner => ?_, fun text htext hflag => ?_⟩
    · rw [← reading_hanging hreads] at hjoiner
      cases hjoiner
    · exact absurd hflag (h text (List.mem_append_left _ (List.mem_of_getLast? htext))).flag

theorem mem_stretches {slots stretch : List Str} (h : stretch ∈ stretches slots) :
    ∀ slot ∈ stretch, slot ∈ slots ∧ slot ≠ [] := by
  generalize hcount : slots.length = count
  induction count using Nat.strongRecOn generalizing slots with
  | ind count ih =>
    obtain ⟨first, rest, rfl, hfirst, hrest⟩ := firstStretch slots
    rcases hrest with rfl | ⟨more, rfl⟩
    · rw [List.append_nil, stretches_filled hfirst] at h
      rw [List.mem_singleton.mp h]
      exact fun slot hslot => ⟨List.mem_append_left _ hslot, hfirst slot hslot⟩
    · rw [stretches_append, stretches_filled hfirst] at h
      rcases List.mem_append.mp h with hhere | hlater
      · rw [List.mem_singleton.mp hhere]
        exact fun slot hslot => ⟨List.mem_append_left _ hslot, hfirst slot hslot⟩
      · intro slot hslot
        obtain ⟨hmem, hne⟩ := ih more.length (by rw [← hcount]; simp; omega) hlater rfl slot hslot
        exact ⟨List.mem_append_right _ (List.mem_cons_of_mem _ hmem), hne⟩

theorem clean_balloon : Clean Power.balloon.emoji :=
  clean_of_reading (by decide +kernel) (by decide +kernel) (by decide +kernel) (by decide +kernel)

theorem clean_ages (male : Bool) : ∀ emoji ∈ ageEmoji male, Clean emoji := by
  have hages : ∀ emoji ∈ ageEmoji male, OneEmoji emoji ∧ (∀ letter ∈ lettersOf emoji, letter.broken = false) ∧
      sticksToTheOneBefore (letterAt emoji).code = false ∧
      (reading (.free false) (lettersOf emoji)).map Prod.snd = some (.free false) := by
    cases male <;> decide +kernel
  intro emoji hemoji
  obtain ⟨hone, hunbroken, hstarts, hmood⟩ := hages emoji hemoji
  exact clean_of_reading hone hunbroken hstarts hmood

/-- Slots of clean emoji are read back as they were stored. -/
theorem lawful_clean : Lawful Clean where
  back slots h := by
    have hclean (slot : Str) (hslot : slot ∈ slots) : slot = [] ∨ Clean slot := by
      by_cases hnil : slot = []
      · exact .inl hnil
      · exact .inr (h slot hslot hnil)
    refine (readSlots_iff le_rfl fun slot hslot => ?_).mpr ((stretches_trimSlots slots).mpr fun stretch hstretch => ?_)
    · exact (hclean slot ((trimSlots_sublist slots).subset hslot)).imp_right Clean.one
    · refine standApart_clean fun piece hpiece => ?_
      obtain ⟨hmem, hne⟩ := mem_stretches hstretch piece hpiece
      exact (hclean piece hmem).resolve_left hne
  nothing := rfl
  balloon := by decide +kernel
  ours := clean_balloon
  faces := clean_ages

end NorelecBot
