import NorelecBot.Furniture
import NorelecBot.OneEmoji

/-! # Whether the slots of a place are read back as they were

Empty slots keep their neighbours apart. In every stretch of filled ones the emoji
must be told apart by themselves.
-/

namespace NorelecBot
open Lib Text

/-- A text cut where its pieces begin. -/
theorem cutAt_wordStarts (before : Str) (pieces : List Str) :
    cutAt (before ++ pieces.flatten) (wordStarts before.length (pieces.map List.length)) = pieces := by
  induction pieces generalizing before with
  | nil => rfl
  | cons piece pieces ih =>
    have hrest := ih (before ++ piece)
    rw [List.length_append, List.append_assoc] at hrest
    rw [List.map_cons, wordStarts, List.flatten_cons]
    cases pieces with
    | nil => simp [wordStarts, cutAt]
    | cons next pieces =>
      rw [List.map_cons, wordStarts] at hrest ⊢
      rw [cutAt, hrest]
      simp

/-- The pieces tell where a text was cut. -/
theorem starts_of_cutAt {text : Str} {start : ℕ} {starts : List ℕ} (hsorted : (start :: starts).Pairwise (· < ·))
    (hwithin : ∀ place ∈ starts, place < text.length) :
    start :: starts = wordStarts start ((cutAt text (start :: starts)).map List.length) := by
  induction starts generalizing start with
  | nil => rfl
  | cons next starts ih =>
    obtain ⟨hless, hrest⟩ := List.pairwise_cons.mp hsorted
    have hnext := hless next List.mem_cons_self
    have hlt := hwithin next List.mem_cons_self
    have hwidth : ((text.drop start).take (next - start)).length = next - start := by
      rw [List.length_take, List.length_drop]
      omega
    rw [cutAt, List.map_cons, wordStarts, hwidth, Nat.add_sub_cancel' hnext.le,
      ← ih hrest fun place hplace => hwithin place (List.mem_cons_of_mem _ hplace)]

theorem cutAt_filled {text : Str} {start : ℕ} {starts : List ℕ} (hsorted : (start :: starts).Pairwise (· < ·))
    (hwithin : ∀ place ∈ start :: starts, place < text.length) : [] ∉ cutAt text (start :: starts) := by
  induction starts generalizing start with
  | nil =>
    have hlt := hwithin start List.mem_cons_self
    intro hmem
    have hlength := congrArg List.length (List.mem_singleton.mp hmem)
    rw [List.length_drop, List.length_nil] at hlength
    omega
  | cons next starts ih =>
    obtain ⟨hless, hrest⟩ := List.pairwise_cons.mp hsorted
    have hlt := hwithin start List.mem_cons_self
    have hnext := hless next List.mem_cons_self
    rw [cutAt]
    intro hmem
    rcases List.mem_cons.mp hmem with hnil | hlater
    · have hlength := congrArg List.length hnil
      rw [List.length_take, List.length_drop, List.length_nil] at hlength
      omega
    · exact ih hrest (fun place hplace => hwithin place (List.mem_cons_of_mem _ hplace)) hlater

theorem flatten_cutAt {text : Str} {start : ℕ} {starts : List ℕ} (hsorted : (start :: starts).Pairwise (· < ·)) :
    (cutAt text (start :: starts)).flatten = text.drop start := by
  induction starts generalizing start with
  | nil => simp [cutAt]
  | cons next starts ih =>
    obtain ⟨hless, hrest⟩ := List.pairwise_cons.mp hsorted
    have hnext := hless next List.mem_cons_self
    have hthere : text.drop next = (text.drop start).drop (next - start) := by
      rw [List.drop_drop, Nat.add_sub_cancel' hnext.le]
    rw [cutAt, List.flatten_cons, ih hrest, hthere, List.take_append_drop]

/-- Filled slots side by side that are told apart by themselves. -/
structure StandApart (slots : List Str) : Prop where
  letters : lettersOf slots.flatten = slots.flatMap lettersOf
  next : ∀ before next after, slots = before ++ next :: after → before ≠ [] → ApartFrom before next

theorem standApart_nil : StandApart [] := ⟨rfl, fun before next after h => by simp at h⟩

theorem lettersOf_cons_letter {text : Str} (h : text ≠ []) :
    ∃ letters, lettersOf text = letterAt text :: letters := ⟨_, lettersOf_cons h⟩

theorem keycap_of_reads {text : Str} {marks : List Bool} {last : Mood} (h : ReadsAlone text marks last)
    (hne : text ≠ []) (hplain : (letterAt text).code < 0x80) : couldBeKeycap (letterAt text).code = true := by
  have hreads := h.reads
  rw [lettersOf_cons hne] at hreads
  obtain ⟨begins, next, -, hletter, -, -⟩ := reading_cons_eq_some hreads
  rw [readLetter, readEmoji, readFree, if_pos hplain] at hletter
  split at hletter
  · assumption
  · cases hletter

theorem follow_iff {before rest : List Str} {marks : List Bool} {mood : Mood} (hne : before ≠ [])
    (hreads : reading (.free false) (before.flatMap lettersOf) = some (marks, mood)) (hsettled : mood.settled = true)
    (hflag : mood = .halfFlag ↔ ∃ text, before.getLast? = some text ∧ HalfAFlag text)
    (hrest : ∀ text ∈ rest, OneEmoji text) :
    (∃ last, last.settled = true ∧ reading mood (rest.flatMap lettersOf) =
        some ((rest.map lettersOf).flatMap wordMarks, last)) ↔
      ∀ more next after, rest = more ++ next :: after → ApartFrom (before ++ more) next := by
  induction rest generalizing before marks mood with
  | nil => exact iff_of_true ⟨mood, hsettled, rfl⟩ fun more next after h => by simp at h
  | cons text rest ih =>
    obtain ⟨hfilled, -, own, ownLast, halone⟩ := (hrest text List.mem_cons_self).facts
    obtain ⟨letters, hletters⟩ := lettersOf_cons_letter hfilled
    have hkeycap := keycap_of_reads halone hfilled
    -- The mood says whether what is next stands apart.
    have hapart : (∃ next, readLetter mood (letterAt text) = some (true, next)) ↔ ApartFrom before text := by
      have hbegins := begins_iff hsettled hkeycap
      rw [reading_hanging hreads, hflag] at hbegins
      refine hbegins.trans ⟨fun h => ⟨h.1, h.2.1, fun other hother hhalf => h.2.2 ⟨other, hother, hhalf⟩⟩, fun h => ?_⟩
      exact ⟨h.starts, h.joiner, fun hother => by obtain ⟨other, hother, hhalf⟩ := hother; exact h.flag other hother hhalf⟩
    have hgoes (next : Mood) (hnext : readLetter mood (letterAt text) = some (true, next)) :
        (∃ last, last.settled = true ∧ reading mood ((text :: rest).flatMap lettersOf) =
            some (((text :: rest).map lettersOf).flatMap wordMarks, last)) ↔
          ∀ more next after, rest = more ++ next :: after → ApartFrom (before ++ text :: more) next := by
      obtain ⟨after, hafter, hafterSettled, hhalf⟩ := halone.again hsettled hletters hnext
      have hprefix : reading (.free false) ((before ++ [text]).flatMap lettersOf) =
          some (marks ++ wordMarks (lettersOf text), after) := by
        rw [List.flatMap_append, List.flatMap_singleton, reading_append, hreads, Option.bind_some]
        rw [hafter]
        rfl
      have hnext := ih (by simp) hprefix hafterSettled
        (by rw [hhalf, halone.halfFlag hfilled]; simp) fun other hother => hrest other (List.mem_cons_of_mem _ hother)
      simp only [List.append_assoc, List.cons_append, List.nil_append] at hnext
      rw [← hnext, List.flatMap_cons, List.map_cons, List.flatMap_cons, reading_append, hafter,
        Option.bind_some]
      refine exists_congr fun last => and_congr_right fun _ => ?_
      rw [Option.map_eq_some_iff]
      constructor
      · rintro ⟨⟨others, last'⟩, hothers, heq⟩
        obtain ⟨hmarks, rfl⟩ := Prod.mk.inj heq
        rw [← List.append_cancel_left hmarks]
        exact hothers
      · intro hothers
        exact ⟨_, hothers, rfl⟩
    constructor
    · rintro ⟨last, hlast, hall⟩ more next after hsplit
      have hbegins : ∃ next, readLetter mood (letterAt text) = some (true, next) := by
        rw [List.flatMap_cons, hletters, List.cons_append, List.map_cons, List.flatMap_cons, hletters,
          wordMarks_cons] at hall
        obtain ⟨begins, next, others, hfirst, -, hmarks⟩ := reading_cons_eq_some hall
        rw [List.cons_append] at hmarks
        obtain rfl := (List.cons.inj hmarks).1
        exact ⟨next, hfirst⟩
      obtain ⟨first, hfirst⟩ := hbegins
      cases more with
      | nil =>
        obtain ⟨rfl, -⟩ := List.cons.inj hsplit
        rw [List.append_nil]
        exact hapart.mp ⟨first, hfirst⟩
      | cons other more =>
        obtain ⟨rfl, hrest'⟩ := List.cons.inj hsplit
        exact (hgoes first hfirst).mp ⟨last, hlast, hall⟩ more next after hrest'
    · intro hall
      have hhere := hall [] text rest rfl
      rw [List.append_nil] at hhere
      obtain ⟨first, hfirst⟩ := hapart.mpr hhere
      refine (hgoes first hfirst).mpr fun more next after hsplit => ?_
      exact hall (text :: more) next after (by rw [hsplit, List.cons_append])

theorem trim_eq_self {text : Str} : trim text = text ↔
    text.dropWhile isSpace = text ∧ text.reverse.dropWhile isSpace = text.reverse := by
  rw [trim]
  constructor
  · intro h
    have hback : (text.dropWhile isSpace).length = text.length := by
      have hless := (List.dropWhile_suffix isSpace (l := (text.dropWhile isSpace).reverse)).length_le
      have hmore := (List.dropWhile_suffix isSpace (l := text)).length_le
      have hlength := congrArg List.length h
      rw [List.length_reverse] at hless hlength
      omega
    have hfront : text.dropWhile isSpace = text := (List.dropWhile_suffix isSpace).eq_of_length hback
    rw [hfront] at h
    exact ⟨hfront, by rw [← List.reverse_reverse (text.reverse.dropWhile isSpace), h]⟩
  · rintro ⟨hfront, hback⟩
    rw [hfront, hback, List.reverse_reverse]

theorem dropWhile_flatten {pieces : List Str} (h : ∀ piece ∈ pieces, piece ≠ [] ∧ piece.dropWhile isSpace = piece) :
    pieces.flatten.dropWhile isSpace = pieces.flatten := by
  cases pieces with
  | nil => rfl
  | cons piece pieces =>
    obtain ⟨hne, hpiece⟩ := h piece List.mem_cons_self
    obtain ⟨character, rest, rfl⟩ := List.exists_cons_of_ne_nil hne
    rw [List.dropWhile_cons] at hpiece
    split at hpiece
    · have hlength := congrArg List.length hpiece
      have hless := (List.dropWhile_suffix isSpace (l := rest)).length_le
      rw [List.length_cons] at hlength
      omega
    · rename_i hspace
      rw [List.flatten_cons, List.cons_append, List.dropWhile_cons, if_neg hspace]

theorem trim_flatten {pieces : List Str} (h : ∀ piece ∈ pieces, OneEmoji piece) :
    trim pieces.flatten = pieces.flatten := by
  refine trim_eq_self.mpr ⟨dropWhile_flatten fun piece hpiece => ?_, ?_⟩
  · obtain ⟨hne, htrim, -⟩ := (h piece hpiece).facts
    exact ⟨hne, (trim_eq_self.mp htrim).1⟩
  · rw [List.reverse_flatten]
    refine dropWhile_flatten fun piece hpiece => ?_
    obtain ⟨other, hother, rfl⟩ := List.mem_map.mp (List.mem_reverse.mp hpiece)
    obtain ⟨hne, htrim, -⟩ := (h other hother).facts
    exact ⟨by simpa using hne, (trim_eq_self.mp htrim).2⟩

/-- Pieces that begin where a text is marked have its letters between them. -/
theorem pieces_of_marked {pieces : List Str} {marks : List Bool} {offset : ℕ} (hne : ∀ piece ∈ pieces, piece ≠ [])
    (hlength : marks.length = (lettersOf pieces.flatten).length)
    (h : marked Letter.width offset (lettersOf pieces.flatten) marks = wordStarts offset (pieces.map List.length)) :
    lettersOf pieces.flatten = pieces.flatMap lettersOf ∧ marks = (pieces.map lettersOf).flatMap wordMarks := by
  induction pieces generalizing marks offset with
  | nil => exact ⟨rfl, List.length_eq_zero_iff.mp hlength⟩
  | cons piece pieces ih =>
    have hpiece := hne piece List.mem_cons_self
    cases pieces with
    | nil =>
      simp only [List.flatten_cons, List.flatten_nil, List.append_nil, List.map_cons, List.map_nil, wordStarts] at hlength h
      have hmarks : marks = wordMarks (lettersOf piece) := marked_inj (width_pos_of_mem piece) hlength (length_wordMarks _)
        (by rw [h, marked_word (lettersOf_ne_nil hpiece)])
      simp [hmarks]
    | cons next pieces =>
      rw [List.map_cons, wordStarts] at h
      obtain ⟨before, after, first, rest, hletters, rfl, hfirst, hwidth⟩ := split_of_mem_marked hlength
        (show offset + piece.length ∈ _ by rw [h]; simp [wordStarts])
      rw [List.flatten_cons] at hletters
      obtain ⟨hbefore, hafter⟩ := lettersOf_split hletters (by omega)
      have hpositive : ∀ letter ∈ before, 0 < letter.width := hbefore ▸ width_pos_of_mem _
      rw [List.flatten_cons, hletters, marked_append hfirst, Nat.add_left_cancel hwidth] at h
      obtain ⟨hhere, hthere⟩ := append_inj_of_lt (show _ = [offset] ++ _ from h)
        (fun place hplace => Nat.add_left_cancel hwidth ▸ marked_lt hpositive hplace)
        (fun place hplace => le_of_mem_marked hplace)
        (fun place hplace => by
          have hroom := List.length_pos_iff.mpr hpiece
          rw [List.mem_singleton.mp hplace]
          omega)
        (fun place hplace => le_of_mem_wordStarts
          (show place ∈ wordStarts (offset + piece.length) ((next :: pieces).map List.length) from hplace))
      rw [List.flatten_cons, hletters, List.length_append, List.length_append] at hlength
      rw [← hafter] at hthere hlength
      obtain ⟨hrest, hmarks⟩ := ih (fun other hother => hne other (List.mem_cons_of_mem _ hother)) (by omega) hthere
      have hword : first = wordMarks before := marked_inj hpositive hfirst (length_wordMarks _)
        (by rw [hhere, marked_word (hbefore ▸ lettersOf_ne_nil hpiece)])
      refine ⟨?_, ?_⟩
      · rw [List.flatten_cons, hletters, List.flatMap_cons, ← hrest, hbefore, hafter]
      · rw [hmarks, hword, ← hbefore]
        rfl

theorem textWidth_letters (pieces : List Str) :
    (pieces.map lettersOf).map (textWidth Letter.width) = pieces.map List.length := by
  rw [List.map_map]
  exact List.map_congr_left fun piece _ => textWidth_lettersOf piece

theorem lettersOf_flatten (pieces : List Str) : (pieces.map lettersOf).flatten = pieces.flatMap lettersOf :=
  List.flatMap_def.symm

structure SplitInto (text first : Str) (rest : List Str) (middle last : Mood) : Prop where
  whole : trim text = first ++ rest.flatten
  filled : ∀ piece ∈ first :: rest, piece ≠ []
  begun : ∃ marks start, reading (.free false) (lettersOf first) = some (marks, middle) ∧
    marked Letter.width 0 (lettersOf first) marks = [start]
  letters : lettersOf (first ++ rest.flatten) = lettersOf first ++ rest.flatMap lettersOf
  follows : reading middle (rest.flatMap lettersOf) = some ((rest.map lettersOf).flatMap wordMarks, last)
  settled : last.settled = true

theorem splitInto_of_emojiSplit {text : Str} {pieces : List Str} (h : emojiSplit text = some pieces) :
    ∃ first rest middle last, pieces = first :: rest ∧ SplitInto text first rest middle last := by
  obtain ⟨hne, place, starts, hstarts, hcut⟩ := emojiSplit_eq_some.mp h
  obtain ⟨marks, last, hreads, hsettled, hmarked⟩ := beginnings_eq_some.mp hstarts
  have hlength := length_readAll hreads
  have hwidth := width_pos_of_mem (trim text)
  have hsorted : (place :: starts).Pairwise (· < ·) := hmarked ▸ marked_sorted hwidth
  obtain ⟨hless, hsortedRest⟩ := List.pairwise_cons.mp hsorted
  have hbegin : (0 :: starts).Pairwise (· < ·) :=
    .cons (fun other hother => Nat.zero_lt_of_lt (hless other hother)) hsortedRest
  have hwithin : ∀ other ∈ starts, other < (trim text).length := by
    intro other hother
    have hlt := marked_lt hwidth (hmarked ▸ List.mem_cons_of_mem place hother)
    rwa [Nat.zero_add, textWidth_lettersOf] at hlt
  have hwhole : (cutAt (trim text) (0 :: starts)).flatten = (trim text).drop 0 := flatten_cutAt hbegin
  have hfilled : ∀ piece ∈ cutAt (trim text) (0 :: starts), piece ≠ [] := by
    intro piece hpiece hnil
    refine cutAt_filled hbegin (fun other hother => ?_) (hnil ▸ hpiece)
    rcases List.mem_cons.mp hother with rfl | hlater
    · exact List.length_pos_iff.mpr hne
    · exact hwithin other hlater
  have hboundaries := starts_of_cutAt hbegin hwithin
  rw [hcut] at hwhole hfilled hboundaries
  rw [List.drop_zero] at hwhole
  cases pieces with
  | nil => exact absurd hboundaries (by simp [wordStarts])
  | cons first rest =>
    rw [List.map_cons, wordStarts, Nat.zero_add] at hboundaries
    rw [List.flatten_cons] at hwhole
    rw [← hwhole] at hreads hlength hwidth hmarked
    have hplaces := (List.cons.inj hboundaries).2
    cases rest with
    | nil =>
      rw [List.flatten_nil, List.append_nil] at hreads hmarked
      refine ⟨first, [], last, last, rfl, hwhole.symm, hfilled, ⟨marks, place, hreads, ?_⟩, by simp, rfl, hsettled⟩
      rw [hmarked, hplaces]
      rfl
    | cons next rest =>
      have hplace : first.length ∈ starts := by
        rw [hplaces]
        exact List.mem_cons_self
      obtain ⟨before, after, marks, others, hletters, rfl, hbefore, hroom⟩ :=
        split_of_mem_marked hlength (hmarked ▸ List.mem_cons_of_mem place hplace)
      obtain ⟨rfl, rfl⟩ := lettersOf_split hletters (by omega)
      rw [hletters] at hreads hmarked
      obtain ⟨here, middle, there, hhere, hthere, hsame⟩ := reading_append_eq_some hreads
      obtain ⟨rfl, rfl⟩ := List.append_inj hsame (hbefore.trans (length_readAll hhere).symm)
      rw [marked_append hbefore, Nat.zero_add, textWidth_lettersOf] at hmarked
      obtain ⟨hone, hmore⟩ := append_inj_of_lt (show _ = [place] ++ starts from hmarked)
        (fun other hother => by simpa using marked_lt (width_pos_of_mem first) hother)
        (fun other hother => le_of_mem_marked hother)
        (fun other hother => by
          rw [List.mem_singleton.mp hother]
          exact hless _ hplace)
        (fun other hother => le_of_mem_wordStarts (hplaces ▸ hother))
      obtain ⟨hrest, hwords⟩ := pieces_of_marked (fun piece hpiece => hfilled piece (List.mem_cons_of_mem _ hpiece))
        (length_readAll hthere) (hmore.trans hplaces)
      rw [hrest, hwords] at hthere
      rw [hrest] at hletters
      exact ⟨first, next :: rest, middle, last, rfl, hwhole.symm, hfilled, ⟨marks, place, hhere, hone⟩, hletters,
        hthere, hsettled⟩

/-- A text that reads so is split so. -/
theorem SplitInto.emojiSplit {text first : Str} {rest : List Str} {middle last : Mood}
    (h : SplitInto text first rest middle last) : Text.emojiSplit text = some (first :: rest) := by
  obtain ⟨marks, start, hfirst, honce⟩ := h.begun
  have hwords : ∀ word ∈ rest.map lettersOf, word ≠ [] := by
    intro word hword
    obtain ⟨piece, hpiece, rfl⟩ := List.mem_map.mp hword
    exact lettersOf_ne_nil (h.filled piece (List.mem_cons_of_mem _ hpiece))
  rw [emojiSplit_eq_some, h.whole]
  refine ⟨by simp [h.filled first List.mem_cons_self], start, wordStarts first.length (rest.map List.length), ?_, ?_⟩
  · rw [beginnings_eq_some, h.letters, reading_append, hfirst, Option.bind_some, h.follows]
    refine ⟨_, last, rfl, h.settled, ?_⟩
    rw [marked_append (length_readAll hfirst), honce, textWidth_lettersOf, Nat.zero_add, ← lettersOf_flatten,
      marked_words hwords, textWidth_letters]
    rfl
  · have hback := cutAt_wordStarts [] (first :: rest)
    rw [List.map_cons, wordStarts, List.flatten_cons] at hback
    simpa using hback

/-- The first of a stretch stands apart from those behind it as its mood says. -/
theorem standApart_cons {text : Str} {pieces : List Str} {marks : List Bool} {last : Mood}
    (halone : ReadsAlone text marks last) (hne : text ≠ []) (hpieces : ∀ piece ∈ pieces, OneEmoji piece) :
    StandApart (text :: pieces) ↔ lettersOf (text ++ pieces.flatten) = lettersOf text ++ pieces.flatMap lettersOf ∧
      ∃ mood, mood.settled = true ∧ reading last (pieces.flatMap lettersOf) =
        some ((pieces.map lettersOf).flatMap wordMarks, mood) := by
  have hfirst : reading (.free false) ([text].flatMap lettersOf) = some (marks, last) := by
    rw [List.flatMap_singleton]
    exact halone.reads
  have hflag : last = .halfFlag ↔ ∃ other, [text].getLast? = some other ∧ HalfAFlag other := by
    rw [halone.halfFlag hne]
    simp
  rw [follow_iff (List.cons_ne_nil text []) hfirst halone.settled hflag hpieces]
  constructor
  · rintro ⟨hletters, hnext⟩
    rw [List.flatten_cons, List.flatMap_cons] at hletters
    refine ⟨hletters, fun more next after hsplit => hnext (text :: more) next after ?_ (List.cons_ne_nil _ _)⟩
    rw [hsplit, List.cons_append]
  · rintro ⟨hletters, hnext⟩
    refine ⟨hletters, fun before next after hsplit hbefore => ?_⟩
    obtain ⟨first, before, rfl⟩ := List.exists_cons_of_ne_nil hbefore
    obtain ⟨rfl, hrest⟩ := List.cons.inj hsplit
    exact hnext before next after hrest

/-- A stretch of emoji is split into them exactly when they stand apart. -/
theorem emojiSplit_flatten {pieces : List Str} (hne : pieces ≠ []) (h : ∀ piece ∈ pieces, OneEmoji piece) :
    emojiSplit pieces.flatten = some pieces ↔ StandApart pieces := by
  obtain ⟨text, pieces, rfl⟩ := List.exists_cons_of_ne_nil hne
  obtain ⟨hfilled, -, own, last, halone⟩ := (h text List.mem_cons_self).facts
  obtain ⟨start, honce⟩ := halone.once
  have hpieces : ∀ piece ∈ pieces, OneEmoji piece := fun piece hpiece => h piece (List.mem_cons_of_mem _ hpiece)
  rw [standApart_cons halone hfilled hpieces]
  constructor
  · intro hsplit
    obtain ⟨first, rest, middle, mood, hsame, hcut⟩ := splitInto_of_emojiSplit hsplit
    obtain ⟨rfl, rfl⟩ := List.cons.inj hsame
    obtain ⟨marks, place, hreads, -⟩ := hcut.begun
    obtain ⟨rfl, rfl⟩ := Prod.mk.inj (Option.some.inj (halone.reads.symm.trans hreads))
    exact ⟨hcut.letters, mood, hcut.settled, hcut.follows⟩
  · rintro ⟨hletters, mood, hsettled, hreads⟩
    have hwhole : SplitInto (text :: pieces).flatten text pieces last mood :=
      ⟨trim_flatten h, fun piece hpiece => (h piece hpiece).ne_nil, ⟨own, start, halone.reads, honce⟩, hletters, hreads,
        hsettled⟩
    exact hwhole.emojiSplit

theorem leadByte_plain : ∀ lead < 0x80, leadByte lead = (1, lead) := by decide

/-- A plain character is a letter of its own wherever it stands. -/
theorem plain_letter {text : Str} {character : UInt8} (hplain : character.toNat < 0x80) (h : character ∈ text) :
    ∃ letter ∈ lettersOf text, letter.code = character.toNat := by
  have htail {count code result : ℕ} {text : Str} (h : continuation count code text = some result) :
      character ∉ text.take count := by
    induction count generalizing code text with
    | zero => exact List.not_mem_nil
    | succ count ih =>
      cases text with
      | nil => exact List.not_mem_nil
      | cons next text =>
        rw [continuation] at h
        split at h
        · cases h
        · rename_i hnext
          rw [List.take_succ_cons]
          intro hmem
          rcases List.mem_cons.mp hmem with rfl | hrest
          · exact hnext (.inl hplain)
          · exact ih h hrest
  induction text using letters_induction with
  | nil => cases h
  | letter text hne ih =>
    rw [lettersOf_cons hne]
    rw [← List.take_append_drop (letterAt text).width text] at h
    rcases List.mem_append.mp h with hhere | hrest
    · refine ⟨letterAt text, List.mem_cons_self, ?_⟩
      obtain ⟨lead, text, rfl⟩ := List.exists_cons_of_ne_nil hne
      by_cases hlead : lead = character
      · subst hlead
        rw [letterAt, leadByte_plain _ hplain]
        cases text <;> rfl
      · -- What follows a lead byte is not plain.
        rw [letterAt] at hhere
        split at hhere
        · rename_i code hcode
          obtain ⟨count, hcount⟩ := Nat.exists_eq_succ_of_ne_zero (leadByte_pos lead.toNat).ne'
          rw [hcount] at hcode hhere
          rcases List.mem_cons.mp hhere with hsame | htake
          · exact absurd hsame.symm hlead
          · exact absurd htake (htail hcode)
        · rcases List.mem_cons.mp hhere with hsame | htake
          · exact absurd hsame.symm hlead
          · cases htake
    · obtain ⟨letter, hletter, hcode⟩ := ih hrest
      exact ⟨letter, List.mem_cons_of_mem _ hletter, hcode⟩

/-- No mood reads a plain letter that no keycap is made of. -/
theorem reading_plain {mood : Mood} {letters : List Letter} {letter : Letter} (hmem : letter ∈ letters)
    (hplain : letter.code < 0x80) (hkeycap : couldBeKeycap letter.code = false) : reading mood letters = none := by
  rw [Option.eq_none_iff_forall_ne_some]
  rintro ⟨marks, last⟩ hreads
  induction letters generalizing mood marks with
  | nil => cases hmem
  | cons first letters ih =>
    obtain ⟨begins, next, others, hfirst, hrest, -⟩ := reading_cons_eq_some hreads
    rcases List.mem_cons.mp hmem with rfl | hlater
    · have hregional : isRegional letter.code = false := Bool.eq_false_iff.mpr fun h => isRegional_ge h hplain
      have hvariation : letter.code ≠ 0xFE0F := by omega
      have hsquare : letter.code ≠ 0x20E3 := by omega
      cases mood <;>
        simp [readLetter, readEmoji, readFree, hplain, hkeycap, hregional, hvariation, hsquare] at hfirst
    · exact ih hlater others hrest

/-- No emoji has a plain character in it but those of keycaps. -/
theorem reading_no_plain {text : Str} {mood : Mood} {marks : List Bool} {last : Mood}
    (h : reading mood (lettersOf text) = some (marks, last)) {character : UInt8} (hplain : character.toNat < 0x80)
    (hkeycap : couldBeKeycap character.toNat = false) : character ∉ text := by
  intro hmem
  obtain ⟨letter, hletter, hcode⟩ := plain_letter hplain hmem
  rw [reading_plain hletter (hcode ▸ hplain) (hcode ▸ hkeycap)] at h
  cases h

theorem Text.OneEmoji.no_bracket {text : Str} (h : OneEmoji text) : 91 ∉ text := by
  obtain ⟨-, -, marks, last, halone⟩ := h.facts
  exact reading_no_plain halone.reads (by decide) (by decide)

/-- A text without an empty slot in it, before the next one. -/
theorem upToEmptySlot_append {text rest : Str} (h : upToEmptySlot text = text)
    (hrest : rest = [] ∨ emptySlot.isPrefixOf rest) : upToEmptySlot (text ++ rest) = text := by
  induction text with
  | nil =>
    rcases hrest with rfl | hempty
    · rfl
    · cases rest with
      | nil => rfl
      | cons character rest => exact if_pos hempty
  | cons character text ih =>
    rw [upToEmptySlot] at h
    split at h
    · cases h
    · rename_i hhere
      have hnot : ¬ emptySlot.isPrefixOf (character :: (text ++ rest)) := by
        intro hprefix
        cases text with
        | cons next text => exact hhere hprefix
        | nil =>
          -- A bracket at the end of the text is not closed by the one that opens the empty slot.
          rcases hrest with rfl | hempty
          · exact hhere hprefix
          · cases rest with
            | nil => exact hhere hprefix
            | cons next rest =>
              have hclosed : (91 == character && (93 == next && true)) = true := hprefix
              have hopened : (91 == next && [93].isPrefixOf rest) = true := hempty
              simp only [Bool.and_eq_true, beq_iff_eq] at hclosed hopened
              exact absurd (hclosed.2.1.trans hopened.1.symm) (by decide)
      rw [List.cons_append, upToEmptySlot, if_neg hnot, ih (List.cons.inj h).2]

theorem upToEmptySlot_of_no_bracket {text : Str} (h : 91 ∉ text) : upToEmptySlot text = text := by
  induction text with
  | nil => rfl
  | cons character text ih =>
    have hnot : ¬ emptySlot.isPrefixOf (character :: text) := by
      intro hprefix
      have hboth : (91 == character && [93].isPrefixOf text) = true := hprefix
      exact h (List.mem_cons.mpr (.inl (beq_iff_eq.mp (Bool.and_eq_true _ _ ▸ hboth).1)))
    rw [upToEmptySlot, if_neg hnot, ih fun hmem => h (List.mem_cons_of_mem _ hmem)]

def Admitted (slots : List Str) : Prop := ∀ slot ∈ slots, slot = [] ∨ OneEmoji slot

/-- The stretches of filled slots between the empty ones. -/
def stretches (slots : List Str) : List (List Str) := slots.splitOnP (· = [])

/-- Slots as they are written down, down to the last one. -/
def flatSlots (slots : List Str) : Str := slots.flatMap fun slot => if slot = [] then emptySlot else slot

theorem flatSlots_filled {slots : List Str} (h : ∀ slot ∈ slots, slot ≠ []) : flatSlots slots = slots.flatten := by
  rw [flatSlots, List.flatMap_def, List.map_congr_left fun slot hslot => if_neg (h slot hslot), List.map_id']

theorem pieceSlots_iff {slots : List Str} (hne : slots ≠ []) (h : ∀ slot ∈ slots, OneEmoji slot) :
    pieceSlots slots.flatten = slots ↔ StandApart slots := by
  rw [← emojiSplit_flatten hne h, pieceSlots]
  cases hsplit : emojiSplit slots.flatten with
  | some pieces =>
    rw [Option.getD_some]
    exact ⟨congrArg some, Option.some.inj⟩
  | none =>
    refine iff_of_false (fun hone => ?_) nofun
    -- One slot alone would have been split into itself.
    have hmem : slots.flatten ∈ slots := by
      rw [Option.getD_none] at hone
      rw [← hone]
      simp
    exact absurd (hsplit.symm.trans (h _ hmem)) nofun

theorem pieceSlots_filled {text : Str} (h : text ≠ []) : [] ∉ pieceSlots text := by
  rw [pieceSlots]
  cases hsplit : emojiSplit text with
  | none =>
    intro hmem
    exact h (List.mem_singleton.mp hmem).symm
  | some pieces =>
    obtain ⟨first, rest, middle, last, rfl, hcut⟩ := splitInto_of_emojiSplit hsplit
    exact fun hmem => hcut.filled [] hmem rfl

theorem flatSlots_append (slots more : List Str) : flatSlots (slots ++ more) = flatSlots slots ++ flatSlots more :=
  List.flatMap_append

theorem flatSlots_empty (slots : List Str) : flatSlots ([] :: slots) = emptySlot ++ flatSlots slots := List.flatMap_cons

/-- What is written before an empty slot is read up to it. -/
theorem readSlots_upTo (fuel : ℕ) {text rest : Str} (hne : text ≠ []) (h : upToEmptySlot text = text)
    (hrest : rest = [] ∨ emptySlot.isPrefixOf rest) :
    readSlots (fuel + 1) (text ++ rest) = pieceSlots text ++ readSlots fuel rest := by
  have hupTo := upToEmptySlot_append h hrest
  have hnot : ¬ emptySlot.isPrefixOf (text ++ rest) := by
    intro hprefix
    obtain ⟨character, others, rfl⟩ := List.exists_cons_of_ne_nil hne
    rw [List.cons_append] at hprefix hupTo
    rw [upToEmptySlot, if_pos hprefix] at hupTo
    cases hupTo
  rw [readSlots, if_neg (by simp [hne]), if_neg hnot, hupTo, List.drop_left]

/-- A stretch of filled slots is read up to the empty slot behind it. -/
theorem readSlots_stretch (fuel : ℕ) {slots : List Str} (rest : Str) (hne : slots ≠ [])
    (h : ∀ slot ∈ slots, OneEmoji slot) (hrest : rest = [] ∨ emptySlot.isPrefixOf rest) :
    readSlots (fuel + 1) (slots.flatten ++ rest) = pieceSlots slots.flatten ++ readSlots fuel rest := by
  have hbracket : 91 ∉ slots.flatten := by
    intro hmem
    obtain ⟨slot, hslot, hin⟩ := List.mem_flatten.mp hmem
    exact (h slot hslot).no_bracket hin
  apply readSlots_upTo fuel _ (upToEmptySlot_of_no_bracket hbracket) hrest
  obtain ⟨slot, others, rfl⟩ := List.exists_cons_of_ne_nil hne
  simp [(h slot List.mem_cons_self).ne_nil]

theorem stretches_filled {slots : List Str} (h : ∀ slot ∈ slots, slot ≠ []) : stretches slots = [slots] :=
  List.splitOnP_eq_singleton fun slot hslot => by simpa using h slot hslot

theorem stretches_append (slots more : List Str) : stretches (slots ++ [] :: more) = stretches slots ++ stretches more :=
  List.splitOnP_append_cons slots more (by simp)

theorem firstEmpty_inj {first rest first' rest' : List Str} (h : first ++ [] :: rest = first' ++ [] :: rest')
    (hfirst : [] ∉ first) (hfirst' : [] ∉ first') : first = first' ∧ rest = rest' := by
  induction first generalizing first' with
  | nil =>
    cases first' with
    | nil => exact ⟨rfl, (List.cons.inj h).2⟩
    | cons slot first' => exact absurd ((List.cons.inj h).1 ▸ List.mem_cons_self) hfirst'
  | cons slot first ih =>
    cases first' with
    | nil => exact absurd ((List.cons.inj h).1 ▸ List.mem_cons_self) hfirst
    | cons slot' first' =>
      obtain ⟨rfl, hrest⟩ := List.cons.inj h
      obtain ⟨rfl, rfl⟩ := ih hrest (fun hmem => hfirst (List.mem_cons_of_mem _ hmem))
        fun hmem => hfirst' (List.mem_cons_of_mem _ hmem)
      exact ⟨rfl, rfl⟩

/-- The slots up to the first empty one, and those behind it. -/
theorem firstStretch (slots : List Str) : ∃ stretch rest, slots = stretch ++ rest ∧
    (∀ slot ∈ stretch, slot ≠ []) ∧ (rest = [] ∨ ∃ more, rest = [] :: more) := by
  induction slots with
  | nil => exact ⟨[], [], rfl, nofun, .inl rfl⟩
  | cons slot slots ih =>
    by_cases hslot : slot = []
    · exact ⟨[], slot :: slots, rfl, nofun, .inr ⟨slots, by rw [hslot]⟩⟩
    · obtain ⟨stretch, rest, rfl, hstretch, hrest⟩ := ih
      refine ⟨slot :: stretch, rest, rfl, fun other hother => ?_, hrest⟩
      rcases List.mem_cons.mp hother with rfl | hlater
      · exact hslot
      · exact hstretch other hlater

/-- The stretches are read one by one. -/
theorem readSlots_iff {fuel : ℕ} {slots : List Str} (hfuel : (flatSlots slots).length ≤ fuel) (h : Admitted slots) :
    readSlots fuel (flatSlots slots) = slots ↔ ∀ stretch ∈ stretches slots, StandApart stretch := by
  generalize hcount : slots.length = count
  induction count using Nat.strongRecOn generalizing fuel slots with
  | ind count ih =>
    obtain ⟨stretch, rest, rfl, hstretch, hrest⟩ := firstStretch slots
    have hemoji : ∀ slot ∈ stretch, OneEmoji slot := fun slot hslot =>
      (h slot (List.mem_append_left _ hslot)).resolve_left (hstretch slot hslot)
    rw [flatSlots_append, flatSlots_filled hstretch, List.length_append] at hfuel
    rw [flatSlots_append, flatSlots_filled hstretch]
    by_cases hnone : stretch = []
    · subst hnone
      rcases hrest with rfl | ⟨more, rfl⟩
      · refine iff_of_true (by cases fuel <;> rfl) fun stretch hmem => ?_
        rw [List.mem_singleton.mp hmem]
        exact standApart_nil
      · rw [flatSlots_empty, List.length_append] at hfuel
        have hlength : emptySlot.length = 2 := by decide
        obtain ⟨fuel, rfl⟩ := Nat.exists_eq_succ_of_ne_zero (show fuel ≠ 0 by omega)
        have hmore : readSlots fuel (flatSlots more) = more ↔ ∀ stretch ∈ stretches more, StandApart stretch :=
          ih more.length (by rw [← hcount]; simp) (by omega)
          (fun slot hslot => h slot (by simp [hslot])) rfl
        have hread : readSlots (fuel + 1) (emptySlot ++ flatSlots more) = [] :: readSlots fuel (flatSlots more) := rfl
        have hsplit := stretches_append [] more
        rw [List.nil_append] at hsplit ⊢
        rw [List.flatten_nil, List.nil_append, flatSlots_empty, hread, hsplit, List.cons.injEq, hmore]
        refine ⟨fun hall stretch hmem => ?_, fun hall => ⟨rfl, fun stretch hmem => hall stretch ?_⟩⟩
        · rcases List.mem_append.mp hmem with hfirst | hlater
          · rw [List.mem_singleton.mp hfirst]
            exact standApart_nil
          · exact hall.2 stretch hlater
        · exact List.mem_append_right _ hmem
    · have hfilled : stretch.flatten ≠ [] := by
        obtain ⟨slot, others, rfl⟩ := List.exists_cons_of_ne_nil hnone
        simp [hstretch slot List.mem_cons_self]
      have hpos := List.length_pos_iff.mpr hfilled
      obtain ⟨fuel, rfl⟩ := Nat.exists_eq_succ_of_ne_zero (show fuel ≠ 0 by omega)
      rcases hrest with rfl | ⟨more, rfl⟩
      · have hread := readSlots_stretch fuel [] hnone hemoji (.inl rfl)
        have hnil : readSlots fuel [] = [] := by cases fuel <;> rfl
        have hempty : flatSlots [] = [] := rfl
        rw [hempty, hread, hnil, List.append_nil, List.append_nil, stretches_filled hstretch,
          pieceSlots_iff hnone hemoji]
        simp
      · rw [flatSlots_empty, List.length_append] at hfuel
        have hlength : emptySlot.length = 2 := by decide
        obtain ⟨fuel, rfl⟩ := Nat.exists_eq_succ_of_ne_zero (show fuel ≠ 0 by omega)
        have hread := readSlots_stretch (fuel + 1) (emptySlot ++ flatSlots more) hnone hemoji
          (.inr (List.isPrefixOf_iff_prefix.mpr (List.prefix_append _ _)))
        have hbehind : readSlots (fuel + 1) (emptySlot ++ flatSlots more) = [] :: readSlots fuel (flatSlots more) := rfl
        have hmore : readSlots fuel (flatSlots more) = more ↔ ∀ stretch ∈ stretches more, StandApart stretch :=
          ih more.length (by rw [← hcount]; simp; omega) (by omega)
          (fun slot hslot => h slot (by simp [hslot])) rfl
        rw [flatSlots_empty, hread, hbehind, stretches_append, stretches_filled hstretch]
        have hcut : pieceSlots stretch.flatten ++ [] :: readSlots fuel (flatSlots more) = stretch ++ [] :: more ↔
            pieceSlots stretch.flatten = stretch ∧ readSlots fuel (flatSlots more) = more := by
          refine ⟨fun heq => ?_, fun heq => by rw [heq.1, heq.2]⟩
          exact firstEmpty_inj heq (pieceSlots_filled hfilled) fun hmem => hstretch [] hmem rfl
        rw [hcut, pieceSlots_iff hnone hemoji, hmore]
        simp

theorem stretches_empties (count : ℕ) : ∀ stretch ∈ stretches (List.replicate count []), stretch = [] := by
  induction count with
  | zero => exact fun stretch hmem => List.mem_singleton.mp hmem
  | succ count ih =>
    have hsplit := stretches_append [] (List.replicate count [])
    rw [List.nil_append] at hsplit
    rw [List.replicate_succ, hsplit]
    intro stretch hmem
    rcases List.mem_append.mp hmem with hfirst | hlater
    · exact List.mem_singleton.mp hfirst
    · exact ih stretch hlater

theorem trimSlots_append_empties (slots : List Str) : ∃ count, slots = trimSlots slots ++ List.replicate count [] := by
  induction slots with
  | nil => exact ⟨0, rfl⟩
  | cons slot slots ih =>
    obtain ⟨count, hslots⟩ := ih
    rw [trimSlots]
    split
    · rename_i h
      rw [h.1, List.nil_append] at hslots
      exact ⟨count + 1, by rw [h.2, List.nil_append, List.replicate_succ, ← hslots]⟩
    · exact ⟨count, by rw [List.cons_append, ← hslots]⟩

/-- The empty slots behind the last filled one make no difference. -/
theorem stretches_trimSlots (slots : List Str) :
    (∀ stretch ∈ stretches (trimSlots slots), StandApart stretch) ↔ ∀ stretch ∈ stretches slots, StandApart stretch := by
  obtain ⟨count, hslots⟩ := trimSlots_append_empties slots
  cases count with
  | zero => rw [List.replicate_zero, List.append_nil] at hslots; rw [← hslots]
  | succ count =>
    have hsplit : stretches slots = stretches (trimSlots slots) ++ stretches (List.replicate count []) := by
      rw [← stretches_append, ← List.replicate_succ, ← hslots]
    rw [hsplit]
    refine ⟨fun hall stretch hmem => ?_, fun hall stretch hmem => hall stretch (List.mem_append_left _ hmem)⟩
    rcases List.mem_append.mp hmem with hfirst | hlater
    · exact hall stretch hfirst
    · rw [stretches_empties count stretch hlater]
      exact standApart_nil

/-- Slots that a purchase admits are read back as they were stored exactly when, in every stretch of filled
ones, the emoji stand apart. -/
theorem furnitureSlots_furnitureStored (slots : List Str) (h : Admitted slots) :
    furnitureSlots (furnitureStored slots) = trimSlots slots ↔ ∀ stretch ∈ stretches slots, StandApart stretch := by
  rw [← stretches_trimSlots]
  exact readSlots_iff le_rfl fun slot hslot => h slot ((trimSlots_sublist slots).subset hslot)

instance (slots : List Str) : Decidable (Admitted slots) :=
  inferInstanceAs (Decidable (∀ slot ∈ slots, slot = [] ∨ OneEmoji slot))

theorem furnitureSlots_furnitureStored_balloon :
    furnitureSlots (furnitureStored [utf8 "🎈", [], utf8 "👨‍👩‍👧", []]) = trimSlots [utf8 "🎈", [], utf8 "👨‍👩‍👧", []] ∧
      ∀ stretch ∈ stretches [utf8 "🎈", [], utf8 "👨‍👩‍👧", []], StandApart stretch := by
  have hback : furnitureSlots (furnitureStored [utf8 "🎈", [], utf8 "👨‍👩‍👧", []]) =
      trimSlots [utf8 "🎈", [], utf8 "👨‍👩‍👧", []] := by
    decide +kernel
  exact ⟨hback, (furnitureSlots_furnitureStored _ (by decide +kernel)).mp hback⟩

/-- The two letters of a flag, bought one by one. -/
def halves : List Str := [utf8 "🇮", utf8 "🇹"]

theorem halves_merge : Admitted halves ∧ furnitureSlots (furnitureStored halves) ≠ trimSlots halves := by
  decide +kernel

end NorelecBot
