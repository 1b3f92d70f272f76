import NorelecBot.EmojiReading

/-! # Emoji one after the other

Emoji that are one each are written with nothing between them. They are told apart
again when no letter runs from one into the next, and each begins with a letter that
neither sticks to what is before it, nor is taken up by a joiner that hangs there, nor
makes a flag with it.
-/

namespace NorelecBot.Text
open Lib

def OneEmoji (text : Str) : Prop := emojiSplit text = some [text]

instance (text : Str) : Decidable (OneEmoji text) := inferInstanceAs (Decidable (_ = _))

theorem emojiSplit_eq_some {text : Str} {pieces : List Str} : emojiSplit text = some pieces ↔
    trim text ≠ [] ∧ ∃ first starts, beginnings 0 (.free false) (lettersOf (trim text)) = some (first :: starts) ∧
      cutAt (trim text) (0 :: starts) = pieces := by
  rw [emojiSplit]
  by_cases hnil : trim text = []
  · rw [if_pos hnil]
    exact ⟨nofun, fun h => absurd hnil h.1⟩
  · rw [if_neg hnil, findStarts_eq le_rfl]
    rcases hstarts : beginnings 0 (.free false) (lettersOf (trim text)) with _ | _ | ⟨first, starts⟩
    · exact ⟨nofun, fun h => by obtain ⟨-, first, starts, hsome, -⟩ := h; cases hsome⟩
    · exact ⟨nofun, fun h => by obtain ⟨-, first, starts, hsome, -⟩ := h; cases hsome⟩
    · refine ⟨fun h => ⟨hnil, first, starts, rfl, Option.some.inj h⟩, fun h => ?_⟩
      obtain ⟨-, first', starts', hsame, rfl⟩ := h
      cases hsame
      rfl

theorem beginnings_eq_some {offset : ℕ} {mood : Mood} {letters : List Letter} {starts : List ℕ} :
    beginnings offset mood letters = some starts ↔ ∃ marks last, reading mood letters = some (marks, last) ∧
      last.settled = true ∧ marked Letter.width offset letters marks = starts := by
  rw [beginnings, Option.bind_eq_some_iff]
  constructor
  · rintro ⟨⟨marks, last⟩, hreading, hstarts⟩
    split at hstarts
    · exact ⟨marks, last, hreading, ‹_›, Option.some.inj hstarts⟩
    · cases hstarts
  · rintro ⟨marks, last, hreading, hsettled, rfl⟩
    exact ⟨(marks, last), hreading, if_pos hsettled⟩

structure ReadsAlone (text : Str) (marks : List Bool) (last : Mood) : Prop where
  reads : reading (.free false) (lettersOf text) = some (marks, last)
  settled : last.settled = true
  once : ∃ start, marked Letter.width 0 (lettersOf text) marks = [start]

theorem OneEmoji.facts {text : Str} (h : OneEmoji text) :
    text ≠ [] ∧ trim text = text ∧ ∃ marks last, ReadsAlone text marks last := by
  obtain ⟨hne, first, starts, hstarts, hcut⟩ := emojiSplit_eq_some.mp h
  cases starts with
  | nil =>
    have htrim : trim text = text := List.cons.inj hcut |>.1
    rw [htrim] at hne hstarts
    obtain ⟨marks, last, hreads, hsettled, honce⟩ := beginnings_eq_some.mp hstarts
    exact ⟨hne, htrim, marks, last, hreads, hsettled, first, honce⟩
  | cons next starts =>
    have hcount := congrArg List.length hcut
    cases starts <;> simp [cutAt] at hcount

theorem OneEmoji.ne_nil {text : Str} (h : OneEmoji text) : text ≠ [] := h.facts.1

/-- The letter the emoji begins at, the last it has, is the first of a flag. -/
def HalfAFlag (text : Str) : Prop :=
  ∃ before letter, lettersOf text = before ++ [letter] ∧ isRegional letter.code = true ∧
    findStarts text.length text 0 false = some [textWidth Letter.width before]

theorem marked_last {before : List Letter} {letter : Letter} {marks : List Bool} {begins : Bool} {offset : ℕ}
    (h : marks.length = before.length) :
    marked Letter.width offset (before ++ [letter]) (marks ++ [begins]) =
      marked Letter.width offset before marks ++ if begins then [offset + textWidth Letter.width before] else [] := by
  rw [marked_append h]
  rfl

theorem readFree_begins {joined : Bool} {code : ℕ} {next : Mood} (hplain : ¬ code < 0x80)
    (h : readFree joined code = some (true, next)) : sticksToTheOneBefore code = false ∧ joined = false ∧
      next = if isRegional code then .halfFlag else .free false := by
  rw [readFree, if_neg hplain] at h
  split at h
  · cases h
  · rename_i hsticks
    split at h
    · cases h
    · rename_i hjoined
      cases h
      exact ⟨Bool.eq_false_iff.mpr hsticks, Bool.eq_false_iff.mpr hjoined, rfl⟩

/-- A flag is half open only behind the letter an emoji begins at. -/
theorem readEmoji_halfFlag {mood : Mood} {code : ℕ} {begins : Bool}
    (h : readEmoji mood code = some (begins, .halfFlag)) : begins = true ∧ isRegional code = true := by
  have hfree {joined : Bool} (hread : readFree joined code = some (begins, .halfFlag)) :
      begins = true ∧ isRegional code = true := by
    by_cases hplain : code < 0x80
    · rw [readFree, if_pos hplain] at hread
      split at hread <;> cases hread
    · cases begins with
      | true =>
        obtain ⟨-, -, hnext⟩ := readFree_begins hplain hread
        split at hnext
        · exact ⟨rfl, ‹_›⟩
        · cases hnext
      | false =>
        rw [readFree, if_neg hplain] at hread
        split_ifs at hread <;> cases hread
  cases mood with
  | free joined => exact hfree h
  | halfFlag =>
    rw [readEmoji] at h
    split at h
    · cases h
    · exact hfree h
  | digit joined =>
    rw [readEmoji] at h
    split_ifs at h <;> cases h
  | dressed joined =>
    rw [readEmoji] at h
    split_ifs at h
    cases h

theorem readEmoji_regional {mood next : Mood} {code : ℕ} (hregional : isRegional code = true)
    (h : readEmoji mood code = some (true, next)) : next = .halfFlag := by
  have hplain := isRegional_ge hregional
  have hfree {joined : Bool} (hread : readFree joined code = some (true, next)) : next = .halfFlag := by
    obtain ⟨-, -, hnext⟩ := readFree_begins hplain hread
    rwa [if_pos hregional] at hnext
  cases mood with
  | free joined => exact hfree h
  | halfFlag =>
    rw [readEmoji, if_pos hregional] at h
    cases h
  | digit joined =>
    rw [readEmoji] at h
    split_ifs at h <;> cases h
  | dressed joined =>
    rw [readEmoji] at h
    split_ifs at h
    cases h

theorem ReadsAlone.halfFlag {text : Str} {marks : List Bool} {last : Mood} (h : ReadsAlone text marks last)
    (hne : text ≠ []) : last = .halfFlag ↔ HalfAFlag text := by
  obtain ⟨start, honce⟩ := h.once
  obtain ⟨before, letter, hletters⟩ : ∃ before letter, lettersOf text = before ++ [letter] :=
    ⟨_, _, (List.dropLast_append_getLast (lettersOf_ne_nil hne)).symm⟩
  have hreads := h.reads
  have hstarts : findStarts text.length text 0 false = some [start] := by
    rw [findStarts_eq le_rfl, beginnings_eq_some]
    exact ⟨marks, last, hreads, h.settled, honce⟩
  rw [hletters] at hreads honce
  obtain ⟨marks', middle, rest, hbefore, hlast, rfl⟩ := reading_append_eq_some hreads
  obtain ⟨begins, next, others, hletter, hnil, rfl⟩ := reading_cons_eq_some hlast
  cases hnil
  rw [marked_last (length_readAll hbefore), Nat.zero_add] at honce
  constructor
  · rintro rfl
    obtain ⟨rfl, hregional⟩ := readEmoji_halfFlag hletter
    rw [if_pos rfl] at honce
    have hlone : marked Letter.width 0 before marks' = [] ∧ textWidth Letter.width before = start := by
      rcases hmarked : marked Letter.width 0 before marks' with _ | ⟨one, more⟩
      · rw [hmarked] at honce
        exact ⟨rfl, (List.cons.inj honce).1⟩
      · rw [hmarked] at honce
        simp at honce
    rw [← hlone.2] at hstarts
    exact ⟨before, letter, hletters, hregional, hstarts⟩
  · rintro ⟨before', letter', hletters', hregional, hstarts'⟩
    obtain ⟨rfl, hsame⟩ := List.append_inj' (hletters.symm.trans hletters') rfl
    obtain rfl := (List.cons.inj hsame).1
    rw [hstarts] at hstarts'
    obtain rfl : start = textWidth Letter.width before := (List.cons.inj (Option.some.inj hstarts')).1
    cases begins with
    | true => exact readEmoji_regional hregional hletter
    | false =>
      rw [if_neg Bool.false_ne_true, List.append_nil] at honce
      have hlt := marked_lt (fun other hother => width_pos_of_mem text other
        (hletters ▸ List.mem_append_left _ hother)) (honce ▸ List.mem_singleton_self _)
      rw [Nat.zero_add] at hlt
      exact absurd hlt (lt_irrefl _)

theorem unmarked_of_marked_nil {offset : ℕ} {letters : List Letter} {marks : List Bool}
    (hwidth : ∀ letter ∈ letters, 0 < letter.width) (hlength : marks.length = letters.length)
    (h : marked Letter.width offset letters marks = []) : marks = List.replicate letters.length false :=
  marked_inj hwidth hlength List.length_replicate (by rw [h, marked_unmarked])

/-- Where no emoji begins, a joiner that hangs before makes no difference to what is begun. -/
theorem reading_joiner {letters : List Letter} {count : ℕ} {last : Mood}
    (h : reading (.free false) letters = some (List.replicate count false, last)) (hsettled : last.settled = true)
    (joined : Bool) : ∃ next, reading (.free joined) letters = some (List.replicate count false, next) ∧
      next.settled = true ∧ (next = .halfFlag ↔ last = .halfFlag) := by
  cases letters with
  | nil =>
    obtain ⟨hmarks, rfl⟩ := Prod.mk.inj (Option.some.inj h)
    refine ⟨.free joined, ?_, rfl, iff_of_false nofun nofun⟩
    rw [← hmarks]
    rfl
  | cons letter letters =>
    obtain ⟨begins, next, others, hletter, hrest, hmarks⟩ := reading_cons_eq_some h
    have hnot : begins = false := by
      refine List.eq_of_mem_replicate (n := count) ?_
      rw [hmarks]
      exact List.mem_cons_self
    subst hnot
    have hsame : readLetter (.free joined) letter = some (false, next) := by
      rw [readLetter, readEmoji, readFree] at hletter ⊢
      split at hletter
      · split at hletter <;> cases hletter
      · rename_i hplain
        rw [if_neg hplain]
        split at hletter
        · rename_i hsticks
          rw [if_pos hsticks, hletter]
        · cases hletter
    refine ⟨last, ?_, hsettled, Iff.rfl⟩
    rw [reading_cons _ hsame, hrest, hmarks]
    rfl

theorem reading_keycap {letters : List Letter} {count : ℕ} {last : Mood}
    (h : reading (.digit false) letters = some (List.replicate count false, last)) (hsettled : last.settled = true)
    (joined : Bool) : ∃ next, reading (.digit joined) letters = some (List.replicate count false, next) ∧
      next.settled = true ∧ (next = .halfFlag ↔ last = .halfFlag) := by
  have hclosed {square : Letter} {letters : List Letter} {count : ℕ} {mood mood' : Mood}
      (hsquare : readLetter mood square = some (false, .free false))
      (hsquare' : readLetter mood' square = some (false, .free joined))
      (h : reading mood (square :: letters) = some (List.replicate count false, last)) :
      ∃ next, reading mood' (square :: letters) = some (List.replicate count false, next) ∧
        next.settled = true ∧ (next = .halfFlag ↔ last = .halfFlag) := by
    obtain ⟨begins, middle, others, hletter, hrest, hmarks⟩ := reading_cons_eq_some h
    obtain ⟨rfl, rfl⟩ := Prod.mk.inj (Option.some.inj (hsquare.symm.trans hletter))
    have hothers : others = List.replicate (count - 1) false := by
      cases count with
      | zero => cases hmarks
      | succ count => exact (List.cons.inj hmarks).2.symm
    rw [hothers] at hrest
    obtain ⟨next, hnext, hsettled', hhalf⟩ := reading_joiner hrest hsettled joined
    refine ⟨next, ?_, hsettled', hhalf⟩
    rw [reading_cons _ hsquare', hnext, hmarks, hothers]
    rfl
  cases letters with
  | nil =>
    obtain ⟨-, rfl⟩ := Prod.mk.inj (Option.some.inj h)
    cases hsettled
  | cons letter letters =>
    by_cases hvariation : letter.code = 0xFE0F
    · have hdressed (joined : Bool) : readLetter (.digit joined) letter = some (false, .dressed joined) := by
        rw [readLetter, readEmoji, if_pos hvariation]
      obtain ⟨begins, middle, others, hletter, hrest, hmarks⟩ := reading_cons_eq_some h
      obtain ⟨rfl, rfl⟩ := Prod.mk.inj (Option.some.inj ((hdressed false).symm.trans hletter))
      have hothers : others = List.replicate (count - 1) false := by
        cases count with
        | zero => cases hmarks
        | succ count => exact (List.cons.inj hmarks).2.symm
      rw [hothers] at hrest
      cases letters with
      | nil =>
        obtain ⟨-, rfl⟩ := Prod.mk.inj (Option.some.inj hrest)
        cases hsettled
      | cons square letters =>
        obtain ⟨_, _, _, hletter', -, -⟩ := reading_cons_eq_some hrest
        have hcode : square.code = 0x20E3 := by
          by_contra hnot
          rw [readLetter, readEmoji, if_neg hnot] at hletter'
          cases hletter'
        have hsquare (joined : Bool) : readLetter (.dressed joined) square = some (false, .free joined) := by
          rw [readLetter, readEmoji, if_pos hcode]
        obtain ⟨next, hnext, hsettled', hhalf⟩ := hclosed (hsquare false) (hsquare joined) hrest
        refine ⟨next, ?_, hsettled', hhalf⟩
        rw [reading_cons _ (hdressed joined), hnext, hmarks, hothers]
        rfl
    · obtain ⟨_, _, _, hletter', -, -⟩ := reading_cons_eq_some h
      have hcode : letter.code = 0x20E3 := by
        by_contra hnot
        rw [readLetter, readEmoji, if_neg hvariation, if_neg hnot] at hletter'
        cases hletter'
      have hsquare (joined : Bool) : readLetter (.digit joined) letter = some (false, .free joined) := by
        rw [readLetter, readEmoji, if_neg hvariation, if_pos hcode]
      exact hclosed (hsquare false) (hsquare joined) h

/-- An emoji begins at its first letter. -/
theorem ReadsAlone.cons {text : Str} {marks : List Bool} {last next : Mood} {letter : Letter} {letters : List Letter}
    (h : ReadsAlone text marks last) (hletters : lettersOf text = letter :: letters)
    (hbegins : readLetter (.free false) letter = some (true, next)) :
    marks = wordMarks (lettersOf text) ∧
      reading next letters = some (List.replicate letters.length false, last) := by
  obtain ⟨start, honce⟩ := h.once
  have hreads := h.reads
  rw [hletters] at hreads honce ⊢
  obtain ⟨begins, middle, others, hletter, hrest, rfl⟩ := reading_cons_eq_some hreads
  obtain ⟨rfl, rfl⟩ := Prod.mk.inj (Option.some.inj (hbegins.symm.trans hletter))
  rw [marked, if_pos rfl] at honce
  have hothers := unmarked_of_marked_nil (fun other hother => width_pos_of_mem text other
    (hletters ▸ List.mem_cons_of_mem _ hother)) (length_readAll hrest) (List.cons.inj honce).2
  rw [hothers] at hrest ⊢
  exact ⟨(wordMarks_cons letter letters).symm, hrest⟩

/-- One emoji read in any mood in which an emoji begins at its first letter. -/
theorem ReadsAlone.again {text : Str} {marks : List Bool} {last mood next : Mood} {letter : Letter}
    {letters : List Letter} (h : ReadsAlone text marks last) (hmood : mood.settled = true)
    (hletters : lettersOf text = letter :: letters) (hbegins : readLetter mood letter = some (true, next)) :
    ∃ after, reading mood (lettersOf text) = some (wordMarks (lettersOf text), after) ∧ after.settled = true ∧
      (after = .halfFlag ↔ last = .halfFlag) := by
  have hfree (joined : Bool) (hread : readFree joined letter.code = some (true, next)) :
      ∃ after, reading next letters = some (List.replicate letters.length false, after) ∧ after.settled = true ∧
        (after = .halfFlag ↔ last = .halfFlag) := by
    by_cases hplain : letter.code < 0x80
    · rw [readFree, if_pos hplain] at hread
      split at hread
      · rename_i hkeycap
        cases hread
        obtain ⟨-, hrest⟩ := h.cons hletters
          (show readLetter (.free false) letter = some (true, .digit false) by
            rw [readLetter, readEmoji, readFree, if_pos hplain, if_pos hkeycap])
        exact reading_keycap hrest h.settled joined
      · cases hread
    · obtain ⟨-, rfl, -⟩ := readFree_begins hplain hread
      obtain ⟨-, hrest⟩ := h.cons hletters (show readLetter (.free false) letter = some (true, next) from hread)
      exact ⟨last, hrest, h.settled, Iff.rfl⟩
  obtain ⟨after, hrest, hsettled, hhalf⟩ : ∃ after,
      reading next letters = some (List.replicate letters.length false, after) ∧ after.settled = true ∧
        (after = .halfFlag ↔ last = .halfFlag) := by
    cases mood with
    | free joined => exact hfree joined hbegins
    | halfFlag =>
      rw [readLetter, readEmoji] at hbegins
      split at hbegins
      · cases hbegins
      · exact hfree false hbegins
    | digit joined => cases hmood
    | dressed joined => cases hmood
  refine ⟨after, ?_, hsettled, hhalf⟩
  rw [hletters, reading_cons _ hbegins, hrest, wordMarks_cons]
  rfl

structure ApartFrom (before : List Str) (next : Str) : Prop where
  starts : sticksToTheOneBefore (letterAt next).code = false
  joiner : hangingJoiner (before.flatMap lettersOf) = true → couldBeKeycap (letterAt next).code = true
  flag : ∀ text, before.getLast? = some text → HalfAFlag text → isRegional (letterAt next).code = false

theorem couldBeKeycap_lt {code : ℕ} (h : couldBeKeycap code = true) : code < 0x80 := by
  simp only [couldBeKeycap, Bool.or_eq_true, Bool.and_eq_true, decide_eq_true_eq] at h
  omega

theorem sticks_ge {code : ℕ} (h : sticksToTheOneBefore code = true) : ¬ code < 0x80 := by
  simp only [sticksToTheOneBefore, Bool.or_eq_true, Bool.and_eq_true, decide_eq_true_eq] at h
  omega

/-- The moods in which an emoji begins at a letter. -/
theorem begins_iff {mood : Mood} {code : ℕ} (hmood : mood.settled = true)
    (hkeycap : code < 0x80 → couldBeKeycap code = true) :
    (∃ next, readEmoji mood code = some (true, next)) ↔ sticksToTheOneBefore code = false ∧
      (mood.joined = true → couldBeKeycap code = true) ∧ (mood = .halfFlag → isRegional code = false) := by
  have hfree (joined : Bool) : (∃ next, readFree joined code = some (true, next)) ↔
      sticksToTheOneBefore code = false ∧ (joined = true → couldBeKeycap code = true) := by
    by_cases hplain : code < 0x80
    · rw [readFree, if_pos hplain, if_pos (hkeycap hplain)]
      exact iff_of_true ⟨_, rfl⟩ ⟨Bool.eq_false_iff.mpr fun hsticks => sticks_ge hsticks hplain, fun _ => hkeycap hplain⟩
    · constructor
      · rintro ⟨next, hread⟩
        obtain ⟨hsticks, hjoined, -⟩ := readFree_begins hplain hread
        exact ⟨hsticks, fun hyes => absurd (hjoined.symm.trans hyes) Bool.false_ne_true⟩
      · rintro ⟨hsticks, hjoined⟩
        have hnot : ¬ joined = true := fun hyes => hplain (couldBeKeycap_lt (hjoined hyes))
        rw [readFree, if_neg hplain, hsticks, if_neg Bool.false_ne_true, if_neg hnot]
        exact ⟨_, rfl⟩
  cases mood with
  | free joined =>
    rw [readEmoji, hfree, Mood.joined]
    exact ⟨fun h => ⟨h.1, h.2, by simp⟩, fun h => ⟨h.1, h.2.1⟩⟩
  | halfFlag =>
    rw [readEmoji]
    by_cases hregional : isRegional code = true
    · rw [if_pos hregional]
      refine iff_of_false (fun h => by obtain ⟨next, hread⟩ := h; cases hread) fun h => ?_
      exact absurd (h.2.2 rfl) (by simp [hregional])
    · rw [if_neg hregional, hfree, Mood.joined]
      exact ⟨fun h => ⟨h.1, by simp, fun _ => Bool.eq_false_iff.mpr hregional⟩, fun h => ⟨h.1, by simp⟩⟩
  | digit joined => cases hmood
  | dressed joined => cases hmood

end NorelecBot.Text
