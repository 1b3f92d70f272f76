import Mathlib.Algebra.BigOperators.Group.List.Basic
import Mathlib.Algebra.Order.Ring.Int

/-! # Reading a text and marking where its words begin

A reader goes through a text letter by letter. Its mood says what it expects, and
each letter is marked where a word begins at it. The places of the marks tell the
marks, and where the text can be cut into words.
-/

namespace NorelecBot.Lib

variable {σ α : Type*}

section
variable (read : σ → α → Option (Bool × σ))

/-- The marks put on a text, and the mood it leaves. -/
def readAll : σ → List α → Option (List Bool × σ)
  | mood, [] => some ([], mood)
  | mood, letter :: text =>
    (read mood letter).bind fun first => (readAll first.2 text).map fun rest => (first.1 :: rest.1, rest.2)

/-- The marks of one word, begun at its first letter. -/
def wordMarks (word : List α) : List Bool := word.mapIdx fun index _ => index == 0

end

section
variable {read : σ → α → Option (Bool × σ)}

@[simp] theorem wordMarks_nil : wordMarks ([] : List α) = [] := rfl

theorem wordMarks_cons (letter : α) (word : List α) :
    wordMarks (letter :: word) = true :: List.replicate word.length false := by
  rw [wordMarks, List.mapIdx_cons]
  congr 1
  refine List.ext_getElem? fun index => ?_
  rw [List.getElem?_mapIdx, List.getElem?_replicate]
  split
  · rename_i h
    simp [h]
  · rename_i h
    simpa using h

@[simp] theorem length_wordMarks (word : List α) : (wordMarks word).length = word.length := List.length_mapIdx

theorem readAll_cons {mood next : σ} {letter : α} {text : List α} {begins : Bool}
    (h : read mood letter = some (begins, next)) : readAll read mood (letter :: text) =
      (readAll read next text).map fun rest => (begins :: rest.1, rest.2) := by
  rw [readAll, h]
  rfl

theorem readAll_cons_eq_some {mood last : σ} {letter : α} {text : List α} {marks : List Bool}
    (h : readAll read mood (letter :: text) = some (marks, last)) :
    ∃ begins next others, read mood letter = some (begins, next) ∧
      readAll read next text = some (others, last) ∧ marks = begins :: others := by
  rw [readAll, Option.bind_eq_some_iff] at h
  obtain ⟨⟨begins, next⟩, hfirst, hrest⟩ := h
  obtain ⟨⟨others, last'⟩, hothers, heq⟩ := Option.map_eq_some_iff.mp hrest
  cases heq
  exact ⟨begins, next, others, hfirst, hothers, rfl⟩

theorem readAll_append (mood : σ) (text more : List α) : readAll read mood (text ++ more) =
    (readAll read mood text).bind fun first =>
      (readAll read first.2 more).map fun rest => (first.1 ++ rest.1, rest.2) := by
  induction text generalizing mood with
  | nil => simp [readAll]
  | cons letter text ih =>
    rw [List.cons_append, readAll, readAll]
    cases hletter : read mood letter with
    | none => rfl
    | some first =>
      rw [Option.bind_some, Option.bind_some, ih, Option.bind_map, Option.map_bind]
      refine congrArg (Option.bind _) (funext fun middle => ?_)
      simp only [Function.comp_apply, Option.map_map, List.cons_append]
      rfl

theorem readAll_append_eq_some {mood last : σ} {text more : List α} {marks : List Bool}
    (h : readAll read mood (text ++ more) = some (marks, last)) :
    ∃ first middle rest, readAll read mood text = some (first, middle) ∧
      readAll read middle more = some (rest, last) ∧ marks = first ++ rest := by
  rw [readAll_append, Option.bind_eq_some_iff] at h
  obtain ⟨⟨first, middle⟩, hfirst, hrest⟩ := h
  obtain ⟨⟨rest, last'⟩, hmore, heq⟩ := Option.map_eq_some_iff.mp hrest
  cases heq
  exact ⟨first, middle, rest, hfirst, hmore, rfl⟩

theorem length_readAll {mood last : σ} {text : List α} {marks : List Bool}
    (h : readAll read mood text = some (marks, last)) : marks.length = text.length := by
  induction text generalizing mood marks with
  | nil =>
    cases h
    rfl
  | cons letter text ih =>
    obtain ⟨begins, next, others, -, hothers, rfl⟩ := readAll_cons_eq_some h
    rw [List.length_cons, List.length_cons, ih hothers]

end

section
variable (width : α → ℕ)

def textWidth (text : List α) : ℕ := (text.map width).sum

/-- Where the marked letters stand, counting from an offset. -/
def marked : ℕ → List α → List Bool → List ℕ
  | offset, letter :: text, begins :: marks =>
    if begins then offset :: marked (offset + width letter) text marks
    else marked (offset + width letter) text marks
  | _, _, _ => []

end

/-- Where words of some widths begin when they stand one after the other. -/
def wordStarts : ℕ → List ℕ → List ℕ
  | _, [] => []
  | offset, width :: widths => offset :: wordStarts (offset + width) widths

section
variable {width : α → ℕ}

@[simp] theorem textWidth_nil : textWidth width [] = 0 := rfl

@[simp] theorem textWidth_cons (letter : α) (text : List α) :
    textWidth width (letter :: text) = width letter + textWidth width text := List.sum_cons

@[simp] theorem textWidth_append (text more : List α) :
    textWidth width (text ++ more) = textWidth width text + textWidth width more := by
  rw [textWidth, List.map_append, List.sum_append]
  rfl

theorem marked_append {offset : ℕ} {text more : List α} {marks others : List Bool}
    (h : marks.length = text.length) : marked width offset (text ++ more) (marks ++ others) =
      marked width offset text marks ++ marked width (offset + textWidth width text) more others := by
  induction text generalizing offset marks with
  | nil =>
    obtain rfl := List.length_eq_zero_iff.mp h
    rfl
  | cons letter text ih =>
    cases marks with
    | nil => cases h
    | cons begins marks =>
      rw [List.cons_append, List.cons_append, marked, marked, ih (Nat.succ.inj h), textWidth_cons, ← Nat.add_assoc]
      split <;> rfl

theorem marked_unmarked (offset : ℕ) (text : List α) (count : ℕ) :
    marked width offset text (List.replicate count false) = [] := by
  induction text generalizing offset count with
  | nil => rfl
  | cons letter text ih =>
    cases count with
    | zero => rfl
    | succ count => exact ih _ count

theorem marked_word {offset : ℕ} {word : List α} (h : word ≠ []) :
    marked width offset word (wordMarks word) = [offset] := by
  obtain ⟨letter, word, rfl⟩ := List.exists_cons_of_ne_nil h
  rw [wordMarks_cons, marked, if_pos rfl, marked_unmarked]

theorem marked_words {offset : ℕ} {words : List (List α)} (h : ∀ word ∈ words, word ≠ []) :
    marked width offset words.flatten (words.flatMap wordMarks) =
      wordStarts offset (words.map (textWidth width)) := by
  induction words generalizing offset with
  | nil => rfl
  | cons word words ih =>
    rw [List.flatten_cons, List.flatMap_cons, marked_append (length_wordMarks word),
      marked_word (h word List.mem_cons_self), ih fun other hother => h other (List.mem_cons_of_mem _ hother)]
    rfl

theorem marked_lt {offset place : ℕ} {text : List α} {marks : List Bool} (hwidth : ∀ letter ∈ text, 0 < width letter)
    (h : place ∈ marked width offset text marks) : place < offset + textWidth width text := by
  induction text generalizing offset marks with
  | nil => cases h
  | cons letter text ih =>
    have hroom := hwidth letter List.mem_cons_self
    cases marks with
    | nil => cases h
    | cons begins marks =>
      have hrest (hmem : place ∈ marked width (offset + width letter) text marks) :
          place < offset + textWidth width (letter :: text) := by
        have hlt := ih (fun other hother => hwidth other (List.mem_cons_of_mem _ hother)) hmem
        rwa [textWidth_cons, ← Nat.add_assoc]
      rw [marked] at h
      split at h
      · rcases List.mem_cons.mp h with rfl | hmem
        · rw [textWidth_cons]
          omega
        · exact hrest hmem
      · exact hrest h

theorem le_of_mem_marked {offset place : ℕ} {text : List α} {marks : List Bool}
    (h : place ∈ marked width offset text marks) : offset ≤ place := by
  induction text generalizing offset marks with
  | nil => cases h
  | cons letter text ih =>
    cases marks with
    | nil => cases h
    | cons begins marks =>
      rw [marked] at h
      split at h
      · rcases List.mem_cons.mp h with rfl | hrest
        · exact Nat.le_refl _
        · exact Nat.le_trans (Nat.le_add_right _ _) (ih hrest)
      · exact Nat.le_trans (Nat.le_add_right _ _) (ih h)

theorem marked_sorted {offset : ℕ} {text : List α} {marks : List Bool} (hwidth : ∀ letter ∈ text, 0 < width letter) :
    (marked width offset text marks).Pairwise (· < ·) := by
  induction text generalizing offset marks with
  | nil => exact .nil
  | cons letter text ih =>
    cases marks with
    | nil => exact .nil
    | cons begins marks =>
      have hrest : (marked width (offset + width letter) text marks).Pairwise (· < ·) := ih fun other hother =>
        hwidth other (List.mem_cons_of_mem _ hother)
      rw [marked]
      split
      · refine .cons (fun place hplace => ?_) hrest
        have hroom := hwidth letter List.mem_cons_self
        have hle := le_of_mem_marked hplace
        omega
      · exact hrest

/-- The places tell the marks, as long as no letter takes no room. -/
theorem marked_inj {offset : ℕ} {text : List α} {marks others : List Bool} (hwidth : ∀ letter ∈ text, 0 < width letter)
    (hmarks : marks.length = text.length) (hothers : others.length = text.length)
    (h : marked width offset text marks = marked width offset text others) : marks = others := by
  induction text generalizing offset marks others with
  | nil =>
    rw [List.length_eq_zero_iff.mp hmarks, List.length_eq_zero_iff.mp hothers]
  | cons letter text ih =>
    cases marks with
    | nil => cases hmarks
    | cons begins marks =>
      cases others with
      | nil => cases hothers
      | cons begins' others =>
        have hroom : 0 < width letter := hwidth letter List.mem_cons_self
        have hpast (more : List Bool) : offset ∉ marked width (offset + width letter) text more :=
          fun hmem => absurd (le_of_mem_marked hmem) (by omega)
        have hrest (heq : marked width (offset + width letter) text marks =
            marked width (offset + width letter) text others) : marks = others :=
          ih (fun other hother => hwidth other (List.mem_cons_of_mem _ hother)) (Nat.succ.inj hmarks)
            (Nat.succ.inj hothers) heq
        rw [marked, marked] at h
        cases begins with
        | true =>
          cases begins' with
          | true => rw [hrest (List.cons.inj h).2]
          | false =>
            rw [if_pos rfl, if_neg Bool.false_ne_true] at h
            exact absurd (h ▸ List.mem_cons_self) (hpast others)
        | false =>
          cases begins' with
          | true =>
            rw [if_pos rfl, if_neg Bool.false_ne_true] at h
            exact absurd (h.symm ▸ List.mem_cons_self) (hpast marks)
          | false => rw [hrest h]

/-- A word that begins at a place begins between two letters. -/
theorem split_of_mem_marked {offset place : ℕ} {text : List α} {marks : List Bool} (hmarks : marks.length = text.length)
    (h : place ∈ marked width offset text marks) : ∃ before after first rest, text = before ++ after ∧
      marks = first ++ rest ∧ first.length = before.length ∧ offset + textWidth width before = place := by
  induction text generalizing offset marks with
  | nil => cases h
  | cons letter text ih =>
    cases marks with
    | nil => cases h
    | cons begins marks =>
      have hlater (hmem : place ∈ marked width (offset + width letter) text marks) :
          ∃ before after first rest, letter :: text = before ++ after ∧ begins :: marks = first ++ rest ∧
            first.length = before.length ∧ offset + textWidth width before = place := by
        obtain ⟨before, after, first, rest, rfl, rfl, hlength, hplace⟩ := ih (Nat.succ.inj hmarks) hmem
        refine ⟨letter :: before, after, begins :: first, rest, rfl, rfl, by simpa using hlength, ?_⟩
        rw [textWidth_cons, ← Nat.add_assoc, hplace]
      rw [marked] at h
      split at h
      · rcases List.mem_cons.mp h with rfl | hmem
        · exact ⟨[], letter :: text, [], begins :: marks, rfl, rfl, rfl, rfl⟩
        · exact hlater hmem
      · exact hlater h

/-- There are as many places as marks. -/
theorem length_marked {offset : ℕ} {text : List α} {marks : List Bool} (h : marks.length = text.length) :
    (marked width offset text marks).length = marks.count true := by
  induction text generalizing offset marks with
  | nil =>
    obtain rfl := List.length_eq_zero_iff.mp h
    rfl
  | cons letter text ih =>
    cases marks with
    | nil => cases h
    | cons begins marks =>
      have hrest : (marked width (offset + width letter) text marks).length = marks.count true := ih (Nat.succ.inj h)
      cases begins <;> simp [marked, hrest]

end

theorem le_of_mem_wordStarts {offset place : ℕ} {widths : List ℕ} (h : place ∈ wordStarts offset widths) :
    offset ≤ place := by
  induction widths generalizing offset with
  | nil => cases h
  | cons width widths ih =>
    rcases List.mem_cons.mp h with rfl | hrest
    · exact Nat.le_refl _
    · exact Nat.le_trans (Nat.le_add_right _ _) (ih hrest)

/-- Lists of places on both sides of a place. -/
theorem append_inj_of_lt {first rest first' rest' : List ℕ} {place : ℕ} (h : first ++ rest = first' ++ rest')
    (hfirst : ∀ other ∈ first, other < place) (hrest : ∀ other ∈ rest, place ≤ other)
    (hfirst' : ∀ other ∈ first', other < place) (hrest' : ∀ other ∈ rest', place ≤ other) :
    first = first' ∧ rest = rest' := by
  have hcut {first rest : List ℕ} (hfirst : ∀ other ∈ first, other < place)
      (hrest : ∀ other ∈ rest, place ≤ other) : (first ++ rest).filter (· < place) = first := by
    rw [List.filter_append, List.filter_eq_self.mpr fun other hother => by simpa using hfirst other hother,
      List.filter_eq_nil_iff.mpr fun other hother => by simpa using hrest other hother, List.append_nil]
  have hsame : first = first' := by rw [← hcut hfirst hrest, h, hcut hfirst' hrest']
  subst hsame
  exact ⟨rfl, List.append_cancel_left h⟩

/-- A marked letter begins a word. -/
theorem word_of_mark {words : List (List α)} {before after : List α} {letter : α} {first rest : List Bool}
    (hfilled : ∀ word ∈ words, word ≠ []) (hletters : words.flatten = before ++ letter :: after)
    (hmarks : words.flatMap wordMarks = first ++ true :: rest) (hlength : first.length = before.length) :
    ∃ (word : List α) (more : List (List α)), letter :: word ∈ words ∧ after = word ++ more.flatten ∧
      rest = List.replicate word.length false ++ more.flatMap wordMarks ∧ ∀ other ∈ more, other ≠ [] := by
  induction words generalizing before first with
  | nil => simp at hletters
  | cons word words ih =>
    have hlater : ∀ other ∈ words, other ≠ [] := fun other hother => hfilled other (List.mem_cons_of_mem _ hother)
    obtain ⟨head, word, rfl⟩ := List.exists_cons_of_ne_nil (hfilled word List.mem_cons_self)
    rw [List.flatten_cons, List.cons_append] at hletters
    rw [List.flatMap_cons, wordMarks_cons, List.cons_append] at hmarks
    cases before with
    | nil =>
      obtain rfl := List.length_eq_zero_iff.mp hlength
      obtain ⟨rfl, hafter⟩ := List.cons.inj hletters
      obtain ⟨-, hrest⟩ := List.cons.inj hmarks
      exact ⟨word, words, List.mem_cons_self, hafter.symm, hrest.symm, hlater⟩
    | cons other before =>
      cases first with
      | nil => cases hlength
      | cons begins first =>
        rw [List.cons_append] at hletters hmarks
        obtain ⟨-, hletters⟩ := List.cons.inj hletters
        obtain ⟨-, hmarks⟩ := List.cons.inj hmarks
        -- The mark stands behind the word, whose other letters have none.
        obtain ⟨gone, rfl, hgone⟩ : ∃ gone, first = List.replicate word.length false ++ gone ∧
            words.flatMap wordMarks = gone ++ true :: rest := by
          rcases List.append_eq_append_iff.mp hmarks with ⟨gone, hfirst, hwords⟩ | ⟨gone, hword, hwords⟩
          · exact ⟨gone, hfirst, hwords⟩
          · cases gone with
            | nil => exact ⟨[], by simpa using hword.symm, by simpa using hwords.symm⟩
            | cons begun gone =>
              obtain ⟨rfl, -⟩ := List.cons.inj hwords
              have hmem : true ∈ List.replicate word.length false := by
                rw [hword]
                simp
              exact absurd (List.eq_of_mem_replicate hmem) (by decide)
        have hbefore : word.length + gone.length = before.length := by simpa using hlength
        obtain ⟨passed, rfl⟩ : ∃ passed, before = word ++ passed := by
          have hprefix : word <+: before := List.prefix_of_prefix_length_le
            (hletters ▸ List.prefix_append word words.flatten) (List.prefix_append before _) (by omega)
          exact hprefix.imp fun passed hpassed => hpassed.symm
        rw [List.append_assoc] at hletters
        rw [List.length_append] at hbefore
        obtain ⟨found, more, hfound, hrest⟩ := ih hlater (List.append_cancel_left hletters) hgone (by omega)
        exact ⟨found, more, List.mem_cons_of_mem _ hfound, hrest⟩

/-- Letters without a mark go on with the word before them. -/
theorem unmarked_le {count within : ℕ} {more : List (List α)} {others : List Bool} (hfilled : ∀ word ∈ more, word ≠ [])
    (h : List.replicate within false ++ more.flatMap wordMarks = List.replicate count false ++ others) :
    count ≤ within := by
  cases more with
  | nil =>
    have hlength := congrArg List.length h
    simp at hlength
    omega
  | cons word more =>
    obtain ⟨head, word, rfl⟩ := List.exists_cons_of_ne_nil (hfilled word List.mem_cons_self)
    by_contra hmore
    have hmark := congrArg (·[within]?) h
    rw [List.flatMap_cons, wordMarks_cons] at hmark
    simp [List.getElem?_append, Nat.not_le.mp hmore] at hmark

end NorelecBot.Lib
