import NorelecBot.SlotRoundTrip

/-! # Whether a piece of emoji is one by itself

A text is cut into pieces that make it up again. A piece read by itself is one
emoji, unless it is a keycap that a joiner hangs before: the joiner then takes in
the letter behind the keycap, which stands on its own where the joiner is missing.
-/

namespace NorelecBot
open Lib Text

/-- A digit, `#` or `*` with its square, dressed in a variation selector or not. -/
def isKeycap : List Letter → Bool
  | [digit, square] => couldBeKeycap digit.code && square.code = 0x20E3
  | [digit, variation, square] =>
    couldBeKeycap digit.code && variation.code = 0xFE0F && square.code = 0x20E3
  | _ => false

/-- Whether an emoji begins among some letters: one that neither sticks nor is taken in by a joiner. -/
def anyBegins : Bool → List Letter → Bool
  | _, [] => false
  | joined, letter :: letters =>
    if letter.code < 0x80 then true
    else if sticksToTheOneBefore letter.code then anyBegins (letter.code = 0x200D) letters
    else if joined then anyBegins false letters
    else true

/-- A letter that is an emoji where no joiner takes it in. -/
def standsAlone (letter : Letter) : Bool := 0x80 ≤ letter.code && !sticksToTheOneBefore letter.code

/-- Behind the first emoji, a joiner hangs before a keycap that a letter of its own follows. -/
def JoinerPastKeycap (text : Str) : Prop :=
  ∃ before keycap letter after, lettersOf (trim text) = before ++ keycap ++ letter :: after ∧
    anyBegins false before = true ∧ hangingJoiner before = true ∧ isKeycap keycap = true ∧ standsAlone letter = true

theorem isKeycap_cases {keycap : List Letter} (h : isKeycap keycap = true) : ∃ digit dressing,
    keycap = digit :: dressing ∧ couldBeKeycap digit.code = true ∧
      ∀ joined, reading (.digit joined) dressing = some (List.replicate dressing.length false, .free joined) := by
  match keycap, h with
  | [digit, square], h =>
    simp only [isKeycap, Bool.and_eq_true, decide_eq_true_eq] at h
    refine ⟨digit, [square], rfl, h.1, fun joined => ?_⟩
    simp [readAll, readLetter, readEmoji, h.2]
  | [digit, variation, square], h =>
    simp only [isKeycap, Bool.and_eq_true, decide_eq_true_eq] at h
    refine ⟨digit, [variation, square], rfl, h.1.1, fun joined => ?_⟩
    simp [readAll, readLetter, readEmoji, h.1.2, h.2]

/-- What dresses a digit, and what is behind it. -/
theorem reading_dressing {joined : Bool} {letters : List Letter} {marks : List Bool} {last : Mood}
    (h : reading (.digit joined) letters = some (marks, last)) (hsettled : last.settled = true) :
    ∃ dressing more others, letters = dressing ++ more ∧ marks = List.replicate dressing.length false ++ others ∧
      (∀ digit : Letter, couldBeKeycap digit.code = true → isKeycap (digit :: dressing) = true) ∧
      reading (.free joined) more = some (others, last) := by
  cases letters with
  | nil =>
    cases h
    cases hsettled
  | cons letter letters =>
    obtain ⟨begins, next, others, hletter, hrest, rfl⟩ := reading_cons_eq_some h
    rw [readLetter, readEmoji] at hletter
    by_cases hvariation : letter.code = 0xFE0F
    · rw [if_pos hvariation] at hletter
      cases hletter
      cases letters with
      | nil =>
        cases hrest
        cases hsettled
      | cons square letters =>
        obtain ⟨begins, next, others, hsquare, hmore, rfl⟩ := reading_cons_eq_some hrest
        rw [readLetter, readEmoji] at hsquare
        split at hsquare
        · rename_i hcode
          cases hsquare
          refine ⟨[letter, square], letters, others, rfl, rfl, fun digit hdigit => ?_, hmore⟩
          simp [isKeycap, hdigit, hvariation, hcode]
        · cases hsquare
    · rw [if_neg hvariation] at hletter
      split at hletter
      · rename_i hcode
        cases hletter
        refine ⟨[letter], letters, others, rfl, rfl, fun digit hdigit => ?_, hrest⟩
        simp [isKeycap, hdigit, hcode]
      · cases hletter

/-- An emoji begins among the letters exactly when the reader marks one of them. -/
theorem reading_anyBegins {joined : Bool} {letters : List Letter} {marks : List Bool} {last : Mood}
    (h : reading (.free joined) letters = some (marks, last)) : anyBegins joined letters = true ↔ true ∈ marks := by
  induction letters generalizing joined marks with
  | nil =>
    cases h
    simp [anyBegins]
  | cons letter letters ih =>
    obtain ⟨begins, next, others, hletter, hrest, rfl⟩ := reading_cons_eq_some h
    rw [readLetter, readEmoji, readFree] at hletter
    rw [anyBegins]
    by_cases hplain : letter.code < 0x80
    · rw [if_pos hplain] at hletter ⊢
      split at hletter
      · cases hletter
        simp
      · cases hletter
    · rw [if_neg hplain] at hletter ⊢
      by_cases hsticks : sticksToTheOneBefore letter.code = true
      · rw [if_pos hsticks] at hletter ⊢
        cases hletter
        rw [ih hrest]
        simp
      · rw [if_neg hsticks] at hletter ⊢
        by_cases hjoined : joined = true
        · rw [if_pos hjoined] at hletter ⊢
          cases hletter
          rw [ih hrest]
          simp
        · rw [if_neg hjoined] at hletter ⊢
          cases hletter
          simp

/-- A joiner that hangs makes no difference before a letter that does not stand alone. -/
theorem reading_unjoined {letters : List Letter} {count : ℕ} {last : Mood}
    (h : reading (.free true) letters = some (List.replicate count false, last))
    (hfirst : ∀ letter, letters.head? = some letter → standsAlone letter = false) :
    ∃ after, reading (.free false) letters = some (List.replicate count false, after) ∧
      (last.settled = true → after.settled = true) := by
  cases letters with
  | nil =>
    obtain ⟨hmarks, rfl⟩ := Prod.mk.inj (Option.some.inj h)
    exact ⟨.free false, congrArg (fun marks => some (marks, _)) hmarks, fun _ => rfl⟩
  | cons letter letters =>
    obtain ⟨begins, next, others, hletter, hrest, hmarks⟩ := reading_cons_eq_some h
    have hbegins : begins = false := by
      have hmem : begins ∈ List.replicate count false := by
        rw [hmarks]
        exact List.mem_cons_self
      exact List.eq_of_mem_replicate hmem
    have halone := hfirst letter rfl
    have hsame : readLetter (.free false) letter = some (begins, next) := by
      rw [readLetter, readEmoji, readFree] at hletter ⊢
      subst hbegins
      by_cases hplain : letter.code < 0x80
      · rw [if_pos hplain] at hletter
        split at hletter <;> cases hletter
      · rw [if_neg hplain] at hletter ⊢
        have hsticks : sticksToTheOneBefore letter.code = true := by
          simpa [standsAlone, Nat.not_lt.mp hplain] using halone
        rw [if_pos hsticks] at hletter ⊢
        exact hletter
    refine ⟨last, ?_, id⟩
    rw [reading_cons _ hsame, hrest, hmarks]
    rfl

theorem trim_of_reading {text : Str} {mood last : Mood} {marks : List Bool}
    (h : reading mood (lettersOf text) = some (marks, last)) : trim text = text := by
  have hspace (character : UInt8) (hmem : character ∈ text) : isSpace character = false := by
    by_contra hyes
    have hplain : ∀ code < 256, isSpace (UInt8.ofNat code) = true → code < 0x80 ∧ couldBeKeycap code = false := by
      decide +kernel
    obtain ⟨hlow, hkeycap⟩ := hplain character.toNat character.toNat_lt (by simpa using hyes)
    exact reading_no_plain h hlow hkeycap hmem
  have hkept {characters : Str} (hall : ∀ character ∈ characters, isSpace character = false) :
      characters.dropWhile isSpace = characters := by
    cases characters with
    | nil => rfl
    | cons character characters => rw [List.dropWhile_cons, hall character List.mem_cons_self, if_neg Bool.false_ne_true]
  refine trim_eq_self.mpr ⟨hkept hspace, hkept fun character hmem => ?_⟩
  exact hspace character (List.mem_reverse.mp hmem)

theorem oneEmoji_iff {text : Str} (hne : text ≠ []) : OneEmoji text ↔
    ∃ marks last, reading (.free false) (lettersOf text) = some (marks, last) ∧ last.settled = true ∧
      marks.count true = 1 := by
  constructor
  · intro h
    obtain ⟨-, -, marks, last, halone⟩ := h.facts
    obtain ⟨start, honce⟩ := halone.once
    refine ⟨marks, last, halone.reads, halone.settled, ?_⟩
    rw [← length_marked (length_readAll halone.reads), honce]
    rfl
  · rintro ⟨marks, last, hreads, hsettled, honce⟩
    have htrim := trim_of_reading hreads
    have hmarked : (marked Letter.width 0 (lettersOf text) marks).length = marks.count true :=
      length_marked (length_readAll hreads)
    rw [← hmarked] at honce
    obtain ⟨start, hstart⟩ := List.length_eq_one_iff.mp honce
    refine emojiSplit_eq_some.mpr ⟨by rwa [htrim], start, [], ?_, ?_⟩
    · rw [htrim, beginnings_eq_some]
      exact ⟨marks, last, hreads, hsettled, hstart⟩
    · rw [htrim]
      rfl

theorem count_wordMarks {word : List Letter} (h : word ≠ []) : (wordMarks word).count true = 1 := by
  obtain ⟨letter, word, rfl⟩ := List.exists_cons_of_ne_nil h
  rw [wordMarks_cons, List.count_cons_self, List.count_replicate]
  rfl

/-- A keycap that a letter of its own follows is not one emoji. -/
theorem not_oneEmoji_keycap {text : Str} {keycap more : List Letter} {letter : Letter}
    (hletters : lettersOf text = keycap ++ letter :: more) (hkeycap : isKeycap keycap = true)
    (halone : standsAlone letter = true) : ¬ OneEmoji text := by
  intro hone
  obtain ⟨marks, last, hreads, -, hcount⟩ := (oneEmoji_iff hone.ne_nil).mp hone
  obtain ⟨digit, dressing, rfl, hdigit, hdressing⟩ := isKeycap_cases hkeycap
  have hfirst : readLetter (.free false) digit = some (true, .digit false) := by
    rw [readLetter, readEmoji, readFree, if_pos (couldBeKeycap_lt hdigit), if_pos hdigit]
  rw [hletters, List.cons_append, reading_cons _ hfirst, reading_append, hdressing, Option.bind_some] at hreads
  obtain ⟨⟨others, last'⟩, hrest, heq⟩ := Option.map_eq_some_iff.mp hreads
  obtain ⟨⟨behind, last''⟩, hbehind, heq'⟩ := Option.map_eq_some_iff.mp hrest
  cases heq
  cases heq'
  obtain ⟨begins, next, final, hletter, -, rfl⟩ := reading_cons_eq_some hbehind
  simp only [standsAlone, Bool.and_eq_true, decide_eq_true_eq, Bool.not_eq_true'] at halone
  rw [readLetter, readEmoji, readFree, if_neg (Nat.not_lt.mpr halone.1), halone.2] at hletter
  cases hletter
  simp at hcount

/-- A piece read behind others is one emoji unless it is a keycap that a joiner hangs before. -/
theorem oneEmoji_of_follows {text : Str} {mood next : Mood} (hne : text ≠ []) (hmood : mood.settled = true)
    (hreads : reading mood (lettersOf text) = some (wordMarks (lettersOf text), next)) (hnext : next.settled = true)
    (h : ¬ OneEmoji text) : mood = .free true ∧ ∃ keycap letter more, lettersOf text = keycap ++ letter :: more ∧
      isKeycap keycap = true ∧ standsAlone letter = true := by
  obtain ⟨first, letters, hletters⟩ : ∃ first letters, lettersOf text = first :: letters := ⟨_, _, lettersOf_cons hne⟩
  have honce := count_wordMarks (lettersOf_ne_nil hne)
  have hall := hreads
  rw [hletters, wordMarks_cons] at hall
  obtain ⟨begins, middle, others, hfirst, hrest, hmarks⟩ := reading_cons_eq_some hall
  obtain ⟨rfl, rfl⟩ := List.cons.inj hmarks
  -- Where no joiner hangs, the piece reads as it does by itself.
  have hsame (hfree : readLetter (.free false) first = some (true, middle)) : False := by
    refine h ((oneEmoji_iff hne).mpr ⟨_, next, ?_, hnext, honce⟩)
    rw [hletters, reading_cons _ hfree, hrest, wordMarks_cons]
    rfl
  have hmust : mood = .free true := by
    cases mood with
    | free joined =>
      cases joined with
      | false => exact (hsame hfirst).elim
      | true => rfl
    | halfFlag =>
      rw [readLetter, readEmoji] at hfirst
      split at hfirst
      · cases hfirst
      · exact (hsame hfirst).elim
    | digit joined => cases hmood
    | dressed joined => cases hmood
  subst hmust
  refine ⟨rfl, ?_⟩
  rw [readLetter, readEmoji] at hfirst
  by_cases hplain : first.code < 0x80
  · rw [readFree, if_pos hplain] at hfirst
    split at hfirst
    · rename_i hdigit
      cases hfirst
      obtain ⟨dressing, more, others, rfl, hmarks, hkeycap, hmore⟩ := reading_dressing hrest hnext
      obtain ⟨count, hothers⟩ : ∃ count, others = List.replicate count false := by
        refine ⟨others.length, List.eq_replicate_iff.mpr ⟨rfl, fun mark hmark => ?_⟩⟩
        have hmem : mark ∈ List.replicate (dressing ++ more).length false := by
          rw [hmarks]
          exact List.mem_append_right _ hmark
        exact List.eq_of_mem_replicate hmem
      by_cases hstands : ∃ letter, more.head? = some letter ∧ standsAlone letter = true
      · obtain ⟨letter, hhead, halone⟩ := hstands
        obtain ⟨behind, rfl⟩ := List.head?_eq_some_iff.mp hhead
        exact ⟨first :: dressing, letter, behind, hletters, hkeycap first hdigit, halone⟩
      · have hbehind : ∀ letter, more.head? = some letter → standsAlone letter = false := by
          intro letter hletter
          exact Bool.eq_false_iff.mpr fun hyes => hstands ⟨letter, hletter, hyes⟩
        rw [hothers] at hmore hmarks
        obtain ⟨after, hafter, hsettled⟩ := reading_unjoined hmore hbehind
        refine (h ((oneEmoji_iff hne).mpr ⟨_, after, ?_, hsettled hnext, honce⟩)).elim
        obtain ⟨digit, dressing', hcons, -, hdressing⟩ := isKeycap_cases (hkeycap first hdigit)
        obtain ⟨rfl, rfl⟩ := List.cons.inj hcons
        have hbegins : readLetter (.free false) first = some (true, .digit false) := by
          rw [readLetter, readEmoji, readFree, if_pos hplain, if_pos hdigit]
        rw [hletters, reading_cons _ hbegins, reading_append, hdressing, Option.bind_some, hafter, wordMarks_cons,
          hmarks]
        rfl
    · cases hfirst
  · obtain ⟨-, hjoined, -⟩ := readFree_begins hplain hfirst
    cases hjoined

theorem settled_of_begins {mood : Mood} {letter : Letter} {next : Mood}
    (h : readLetter mood letter = some (true, next)) : mood.settled = true := by
  cases mood with
  | free joined => rfl
  | halfFlag => rfl
  | digit joined =>
    rw [readLetter, readEmoji] at h
    split_ifs at h <;> cases h
  | dressed joined =>
    rw [readLetter, readEmoji] at h
    split_ifs at h
    cases h

theorem settled_of_follows {mood last : Mood} {pieces : List Str} (hfilled : ∀ piece ∈ pieces, piece ≠ [])
    (h : reading mood (pieces.flatMap lettersOf) = some ((pieces.map lettersOf).flatMap wordMarks, last))
    (hsettled : last.settled = true) : mood.settled = true := by
  cases pieces with
  | nil =>
    cases h
    exact hsettled
  | cons piece pieces =>
    rw [List.flatMap_cons, lettersOf_cons (hfilled piece List.mem_cons_self), List.map_cons, List.flatMap_cons,
      lettersOf_cons (hfilled piece List.mem_cons_self), wordMarks_cons] at h
    obtain ⟨begins, next, others, hletter, -, hmarks⟩ := reading_cons_eq_some h
    obtain ⟨rfl, -⟩ := List.cons.inj hmarks
    exact settled_of_begins hletter

theorem SplitInto.oneEmoji_first {text first : Str} {rest : List Str} {middle last : Mood}
    (h : SplitInto text first rest middle last) : OneEmoji first := by
  obtain ⟨marks, start, hreads, honce⟩ := h.begun
  have hsettled := settled_of_follows (fun piece hpiece => h.filled piece (List.mem_cons_of_mem _ hpiece))
    h.follows h.settled
  refine (oneEmoji_iff (h.filled first List.mem_cons_self)).mpr ⟨marks, middle, hreads, hsettled, ?_⟩
  rw [← length_marked (length_readAll hreads), honce]
  rfl

/-- A piece that is not one emoji has a joiner hanging before it. -/
theorem SplitInto.joiner_of_not_one {text first piece : Str} {rest : List Str} {middle last : Mood}
    (h : SplitInto text first rest middle last) (hpiece : piece ∈ rest) (hnot : ¬ OneEmoji piece) :
    JoinerPastKeycap text := by
  obtain ⟨passed, later, rfl⟩ := List.append_of_mem hpiece
  obtain ⟨marks, start, hfirst, honce⟩ := h.begun
  have hfollows := h.follows
  simp only [List.flatMap_append, List.flatMap_cons, List.map_append, List.map_cons] at hfollows
  obtain ⟨_, mood, _, hpassed, hhere, hmarks⟩ := reading_append_eq_some hfollows
  have hpassedLength : ((passed.map lettersOf).flatMap wordMarks).length = (passed.flatMap lettersOf).length := by
    rw [← lettersOf_flatten, List.flatMap_def, List.length_flatten, List.length_flatten, List.map_map]
    exact congrArg List.sum (List.map_congr_left fun word _ => length_wordMarks word)
  obtain ⟨rfl, rfl⟩ := List.append_inj hmarks (hpassedLength.trans (length_readAll hpassed).symm)
  obtain ⟨_, next, _, hown, hlater, hmarks⟩ := reading_append_eq_some hhere
  obtain ⟨rfl, rfl⟩ := List.append_inj hmarks ((length_wordMarks _).trans (length_readAll hown).symm)
  have hfilled : ∀ other ∈ piece :: later, other ≠ [] := by
    intro other hother
    exact h.filled other (List.mem_cons_of_mem _ (List.mem_append_right _ hother))
  have hmood : mood.settled = true := settled_of_follows hfilled hhere h.settled
  have hnext : next.settled = true := settled_of_follows (fun other hother =>
    hfilled other (List.mem_cons_of_mem _ hother)) hlater h.settled
  obtain ⟨rfl, keycap, letter, more, hletters, hkeycap, halone⟩ :=
    oneEmoji_of_follows (hfilled piece List.mem_cons_self) hmood hown hnext hnot
  have hbefore : reading (.free false) (lettersOf first ++ passed.flatMap lettersOf) =
      some (marks ++ (passed.map lettersOf).flatMap wordMarks, .free true) := by
    rw [reading_append, hfirst, Option.bind_some, hpassed]
    rfl
  refine ⟨lettersOf first ++ passed.flatMap lettersOf, keycap, letter, more ++ later.flatMap lettersOf, ?_, ?_,
    (reading_hanging hbefore).symm, hkeycap, halone⟩
  · rw [h.whole, h.letters, List.flatMap_append, List.flatMap_cons, hletters]
    simp
  · have hcount : marks.count true = 1 := by
      rw [← length_marked (length_readAll hfirst), honce]
      rfl
    refine (reading_anyBegins hbefore).mpr (List.mem_append_left _ ?_)
    exact List.count_pos_iff.mp (by omega)

/-- Where a joiner hangs before a keycap with a letter behind it, the piece begun there is not one emoji. -/
theorem SplitInto.not_one_of_joiner {text first : Str} {rest : List Str} {middle last : Mood}
    (h : SplitInto text first rest middle last) (hjoiner : JoinerPastKeycap text) :
    ∃ piece ∈ rest, ¬ OneEmoji piece := by
  obtain ⟨before, keycap, letter, after, hletters, hbegins, hhanging, hkeycap, halone⟩ := hjoiner
  obtain ⟨firstMarks, start, hfirst, honce⟩ := h.begun
  have hcount : firstMarks.count true = 1 := by
    rw [← length_marked (length_readAll hfirst), honce]
    rfl
  have hreads : reading (.free false) (lettersOf (trim text)) =
      some (firstMarks ++ (rest.map lettersOf).flatMap wordMarks, last) := by
    rw [h.whole, h.letters, reading_append, hfirst, Option.bind_some, h.follows]
    rfl
  have hwhole := hletters
  rw [h.whole, h.letters, ← lettersOf_flatten] at hwhole
  rw [hletters, List.append_assoc] at hreads
  obtain ⟨marks, mood, others, hbefore, hothers, hmarks⟩ := reading_append_eq_some hreads
  obtain ⟨digit, dressing, rfl, hdigit, hdressing⟩ := isKeycap_cases hkeycap
  -- The joiner goes past the keycap, which begins a piece.
  have hjoined : mood.joined = true := (reading_hanging hbefore).trans hhanging
  have hplain := couldBeKeycap_lt hdigit
  obtain ⟨others, rfl, hrest⟩ : ∃ behind, others =
      true :: (List.replicate dressing.length false ++ false :: behind) ∧ mood = .free true := by
    rw [List.cons_append] at hothers
    obtain ⟨begins, next, tail, hletter, htail, rfl⟩ := reading_cons_eq_some hothers
    have hmood : mood = .free true := by
      cases mood with
      | free joined => rw [← hjoined, Mood.joined]
      | halfFlag => cases hjoined
      | digit joined =>
        rw [readLetter, readEmoji, if_neg (by omega), if_neg (by omega)] at hletter
        cases hletter
      | dressed joined =>
        rw [readLetter, readEmoji, if_neg (by omega)] at hletter
        cases hletter
    subst hmood
    rw [readLetter, readEmoji, readFree, if_pos hplain, if_pos hdigit] at hletter
    cases hletter
    rw [reading_append, hdressing, Option.bind_some] at htail
    obtain ⟨⟨behind, last'⟩, hbehind, heq⟩ := Option.map_eq_some_iff.mp htail
    obtain ⟨begins, next, final, hletter, -, hfinal⟩ := reading_cons_eq_some hbehind
    simp only [standsAlone, Bool.and_eq_true, decide_eq_true_eq, Bool.not_eq_true'] at halone
    rw [readLetter, readEmoji, readFree, if_neg (Nat.not_lt.mpr halone.1), halone.2] at hletter
    cases hletter
    cases heq
    exact ⟨final, by rw [hfinal], rfl⟩
  have hbegun : true ∈ marks := (reading_anyBegins hbefore).mp hbegins
  -- The first piece has its one mark before the keycap.
  obtain ⟨gone, rfl, hgone⟩ : ∃ gone, marks = firstMarks ++ gone ∧ (rest.map lettersOf).flatMap wordMarks =
      gone ++ true :: (List.replicate dressing.length false ++ false :: others) := by
    rcases List.append_eq_append_iff.mp hmarks with ⟨gone, hleft, hright⟩ | ⟨gone, hleft, hright⟩
    · exact ⟨gone, hleft, hright⟩
    · cases gone with
      | nil => exact ⟨[], by simpa using hleft.symm, by simpa using hright.symm⟩
      | cons begins gone =>
        obtain ⟨rfl, -⟩ := List.cons.inj hright
        rw [hleft, List.count_append, List.count_cons_self] at hcount
        have hsome := List.count_pos_iff.mpr hbegun
        omega
  have hroom : (lettersOf first).length + gone.length = before.length := by
    have hlength := length_readAll hbefore
    rw [List.length_append, length_readAll hfirst] at hlength
    exact hlength
  obtain ⟨passed, rfl⟩ : ∃ passed, before = lettersOf first ++ passed := by
    have hprefix : lettersOf first <+: before := List.prefix_of_prefix_length_le
      (hwhole ▸ List.prefix_append _ _) (by simp) (by omega)
    exact hprefix.imp fun passed hpassed => hpassed.symm
  rw [List.length_append] at hroom
  simp only [List.append_assoc, List.cons_append] at hwhole
  have hfilled : ∀ word ∈ rest.map lettersOf, word ≠ [] := by
    intro word hword
    obtain ⟨piece, hpiece, rfl⟩ := List.mem_map.mp hword
    exact lettersOf_ne_nil (h.filled piece (List.mem_cons_of_mem _ hpiece))
  obtain ⟨word, more, hword, hbehind, hunmarked, hmore⟩ :=
    word_of_mark hfilled (List.append_cancel_left hwhole) hgone (by omega)
  have hwithin : dressing.length + 1 ≤ word.length := by
    apply @unmarked_le _ _ _ _ others hmore
    rw [← hunmarked, List.replicate_succ', List.append_assoc]
    rfl
  obtain ⟨piece, hpiece, hown⟩ := List.mem_map.mp hword
  obtain ⟨tail, rfl⟩ : ∃ tail, word = dressing ++ letter :: tail := by
    have hbegins : dressing ++ [letter] <+: dressing ++ letter :: after := by simp
    have hprefix : dressing ++ [letter] <+: word := List.prefix_of_prefix_length_le hbegins
      (hbehind ▸ List.prefix_append _ _) (by simpa using hwithin)
    obtain ⟨tail, htail⟩ := hprefix
    exact ⟨tail, by simpa using htail.symm⟩
  exact ⟨piece, hpiece, not_oneEmoji_keycap hown hkeycap halone⟩

/-- The pieces are one emoji each exactly when no joiner goes past a keycap. -/
theorem pieces_stand_alone_iff {text : Str} {pieces : List Str} (h : emojiSplit text = some pieces) :
    ((∀ piece ∈ pieces, piece ≠ []) ∧ pieces.flatten = trim text ∧
      (∀ piece ∈ pieces, emojiSplit piece = some [piece] ∧ emojiCount piece = some 1) ∧
      emojiCount text = some pieces.length) ↔ ¬ JoinerPastKeycap text := by
  obtain ⟨first, rest, middle, last, rfl, hcut⟩ := splitInto_of_emojiSplit h
  have hcount : emojiCount text = some (first :: rest).length := congrArg (Option.map List.length) h
  constructor
  · rintro ⟨-, -, hone, -⟩ hjoiner
    obtain ⟨piece, hpiece, hnot⟩ := hcut.not_one_of_joiner hjoiner
    exact hnot (hone piece (List.mem_cons_of_mem _ hpiece)).1
  · intro hjoiner
    refine ⟨hcut.filled, hcut.whole.symm, fun piece hpiece => ?_, hcount⟩
    have hone : OneEmoji piece := by
      rcases List.mem_cons.mp hpiece with rfl | hrest
      · exact hcut.oneEmoji_first
      · by_contra hnot
        exact hjoiner (hcut.joiner_of_not_one hrest hnot)
    exact ⟨hone, congrArg (Option.map List.length) hone⟩

theorem pieces_stand_alone_iff_family :
    emojiSplit (utf8 "👨‍👩‍👧🍕") = some [utf8 "👨‍👩‍👧", utf8 "🍕"] ∧ ¬ JoinerPastKeycap (utf8 "👨‍👩‍👧🍕") := by
  have hsplit : emojiSplit (utf8 "👨‍👩‍👧🍕") = some [utf8 "👨‍👩‍👧", utf8 "🍕"] := by decide
  exact ⟨hsplit, (pieces_stand_alone_iff hsplit).mp (by decide +kernel)⟩

/-- A man joined to a keycap, and a pizza that the joiner takes in past it. -/
def joinedPastKeycap : Str := utf8 "👨‍1️⃣🍕"

theorem piece_splits_again : ¬ ∀ (text : Str) (pieces : List Str), emojiSplit text = some pieces →
    (∀ piece ∈ pieces, piece ≠ []) ∧ pieces.flatten = trim text ∧
      (∀ piece ∈ pieces, emojiSplit piece = some [piece] ∧ emojiCount piece = some 1) ∧
      emojiCount text = some pieces.length := by
  intro h
  obtain ⟨-, -, hone, -⟩ := h joinedPastKeycap [utf8 "👨‍", utf8 "1️⃣🍕"] (by decide)
  exact absurd (hone (utf8 "1️⃣🍕") (by simp)).1 (by decide)

end NorelecBot
