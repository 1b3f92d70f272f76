import NorelecBot.Books
import NorelecBot.Decimal
import NorelecBot.Lib.Tally

/-! # Whoever added a quote is credited with it

The collection, who added which quote and how many each player added are kept in
two files. They agree whatever happens, and the number shown with a quote deletes it.
-/

namespace NorelecBot
open Lib

def quotesPageSize : ℕ := 30

structure QuotePage where
  items : List Str := []
  /-- Who added each of them, empty for the ones added before the bot wrote it down. -/
  authors : List Str := []
  total : ℕ := 0
  page : ℕ := 0
  pages : ℕ := 0
  firstNumber : ℕ := 0
  deriving DecidableEq, Repr

def quotePageLoad (files : Files) (requestedPage : Int32) : QuotePage :=
  if files.quotes.length = 0 then {}
  else
    let pages := (files.quotes.length - 1) / quotesPageSize + 1
    let page := min (if 0 < requestedPage.toInt then requestedPage.toInt.toNat else 1) pages
    let offset := (page - 1) * quotesPageSize
    let items := (files.quotes.drop offset).take quotesPageSize
    { items := items
      authors := items.map fun quote =>
        ((files.state.quoteAuthors.find quote).map (displayName files.state)).getD []
      total := files.quotes.length
      page := page
      pages := pages
      firstNumber := offset + 1 }

/-- A quote on a page stands where its number says, and the numbers stay small. -/
theorem quotePageLoad_item {files : Files} {requestedPage : Int32} {index : ℕ} {quote : Str}
    (h : (quotePageLoad files requestedPage).items[index]? = some quote) :
    ∃ position, (quotePageLoad files requestedPage).firstNumber + index = position + 1 ∧ position < 2 ^ 62 ∧
      files.quotes[position]? = some quote := by
  rw [quotePageLoad] at h ⊢
  split at h
  · simp at h
  · rename_i hsome
    rw [if_neg hsome]
    dsimp only at h ⊢
    generalize hpage : min (if 0 < requestedPage.toInt then requestedPage.toInt.toNat else 1)
      ((files.quotes.length - 1) / quotesPageSize + 1) = page at h ⊢
    rw [List.getElem?_take, List.getElem?_drop] at h
    have hwithin : index < quotesPageSize := by
      by_contra hout
      rw [if_neg hout] at h
      cases h
    rw [if_pos hwithin] at h
    refine ⟨(page - 1) * quotesPageSize + index, by omega, ?_, h⟩
    -- a page is asked for with a number of 32 bits
    have hrequested := requestedPage.toInt_lt
    have hsmall : page ≤ 2 ^ 31 := by
      rw [← hpage]
      split <;> omega
    rw [quotesPageSize] at hwithin ⊢
    omega

structure NoQuotes (files : Files) : Prop where
  quotes : files.quotes = []
  authors : ∀ quote, files.state.quoteAuthors.find quote = none
  added : ∀ player, counter files.state.quotesAdded player = 0

def Credited (files : Files) : Prop :=
  Tallied files.quotes files.state.quoteAuthors.find (counter files.state.quotesAdded)

theorem NoQuotes.credited {files : Files} (h : NoQuotes files) : Credited files := by
  rw [Credited, h.quotes]
  exact Tallied.empty h.authors h.added

/-- Nothing written about quotes, or nothing but about invites. -/
theorem Credited.congr {files files' : Files} (h : Credited files) (hquotes : files'.quotes = files.quotes)
    (hauthors : files'.state.quoteAuthors = files.state.quoteAuthors)
    (hadded : files'.state.quotesAdded = files.state.quotesAdded) : Credited files' := by
  rw [Credited, hquotes, hauthors, hadded]
  exact h

theorem Credited.of_ledgers {files files' : Files} (h : Credited files) (hquotes : files'.quotes = files.quotes)
    (hledgers : ledgers files'.state = ledgers files.state) : Credited files' :=
  h.congr hquotes (congrArg Ledgers.quoteAuthors hledgers) (congrArg Ledgers.quotesAdded hledgers)

theorem quoteAdd_credited {s t : ConquisterState} {quotes quotes' : Quotes} {username quote : Str} {cost : ℤ}
    {result : QuoteAddResult} (h : quoteAdd s quotes username quote cost = .ok (result, t, quotes'))
    (hcredited : Credited ⟨s, quotes⟩) : Credited ⟨t, quotes'⟩ := by
  simp only [quoteAdd] at h
  split at h
  · cases h
    exact hcredited
  · split at h
    · cases h
      exact hcredited
    · rename_i hnew
      split at h
      · cases h
      · cases h
        apply Tallied.add hcredited hnew
        · exact fun other => OrderedMap.find_set _ _ _ _
        · exact fun other => counter_set _ _ _ _

/-- What is selected is in the collection. -/
theorem selectedQuote_lt {quotes : Quotes} {selector : Str} {index : ℕ}
    (h : selectedQuote quotes selector = some index) : index < quotes.length := by
  rw [selectedQuote] at h
  split at h
  · rename_i position hposition
    cases h
    have hwithin := (Option.filter_eq_some_iff.mp hposition).2
    simp only [Bool.and_eq_true, decide_eq_true_eq] at hwithin
    omega
  · split at h
    · rename_i hmem
      cases h
      exact List.idxOf_lt_length_iff.mpr hmem
    · cases h

theorem forgetAuthor_credited {s : ConquisterState} {quotes : Quotes} {quote : Str} (hquote : quote ∈ quotes)
    (h : Credited ⟨s, quotes⟩) : Credited ⟨forgetAuthor s quote, quotes.erase quote⟩ := by
  rw [forgetAuthor]
  cases hauthor : s.quoteAuthors.find quote with
  | none =>
    dsimp only [Credited]
    apply Tallied.remove h hquote
    · intro other
      by_cases hother : other = quote
      · rw [if_pos hother, hother]
        exact hauthor
      · rw [if_neg hother]
    · intro other
      rw [hauthor]
      rfl
  | some author =>
    have hpos : 0 < counter s.quotesAdded author := Tallied.tally_pos h hauthor
    dsimp only [Credited]
    apply Tallied.remove h hquote
    · exact fun other => OrderedMap.find_erase _ _ _
    · intro other
      rw [if_pos hpos, counter_set, hauthor]
      by_cases hother : other = author
      · rw [if_pos hother, if_pos (congrArg some hother.symm), hother]
      · rw [if_neg hother, if_neg fun hsame => hother (Option.some.inj hsame).symm]

/-- What is deleted is the quote at its position, and its credit. -/
theorem quoteDelete_eq {s : ConquisterState} {quotes : Quotes} (hdistinct : quotes.Nodup) {selector : Str}
    {index : ℕ} (h : selectedQuote quotes selector = some index) :
    ∃ quote, quotes[index]? = some quote ∧
      quoteDelete s quotes selector = (some quote, forgetAuthor s quote, quotes.erase quote) := by
  have hlt := selectedQuote_lt h
  refine ⟨quotes[index], List.getElem?_eq_getElem hlt, ?_⟩
  rw [quoteDelete, h]
  simp only [List.getD_eq_getElem?_getD, List.getElem?_eq_getElem hlt, Option.getD_some,
    hdistinct.erase_getElem index hlt]

theorem quoteDelete_credited {s : ConquisterState} {quotes : Quotes} (selector : Str)
    (h : Credited ⟨s, quotes⟩) :
    Credited ⟨(quoteDelete s quotes selector).2.1, (quoteDelete s quotes selector).2.2⟩ := by
  cases hselected : selectedQuote quotes selector with
  | none =>
    rw [quoteDelete, hselected]
    exact h
  | some index =>
    obtain ⟨quote, hquote, hdelete⟩ := quoteDelete_eq (s := s) h.distinct hselected
    rw [hdelete]
    exact forgetAuthor_credited (List.mem_of_getElem? hquote) h

theorem inviteRecord_credits (s : ConquisterState) (newcomer inviter : Str) (platform : RaidTargetKind) (now : ℤ) :
    (inviteRecord s newcomer inviter platform now).2.2.quoteAuthors = s.quoteAuthors ∧
      (inviteRecord s newcomer inviter platform now).2.2.quotesAdded = s.quotesAdded := by
  rw [inviteRecord]
  split
  · exact ⟨rfl, rfl⟩
  · split_ifs
    · exact ⟨rfl, rfl⟩
    · split
      · exact ⟨rfl, rfl⟩
      · split
        · exact ⟨rfl, rfl⟩
        · split <;> exact ⟨rfl, rfl⟩

theorem inviteDue_credits (s : ConquisterState) (newcomer : Str) (samePerson : Bool) :
    (inviteDue s newcomer samePerson).2.quoteAuthors = s.quoteAuthors ∧
      (inviteDue s newcomer samePerson).2.quotesAdded = s.quotesAdded := by
  rw [inviteDue]
  split
  · exact ⟨rfl, rfl⟩
  · split <;> exact ⟨rfl, rfl⟩

section
variable [SlotCodec]

/-- Nobody merged in has a quote to his credit. -/
theorem uncredited_of_noAssets {s : ConquisterState} {key : Str} (h : hasAssets s key = false) (quote : Str) :
    s.quoteAuthors.find quote ≠ some key := by
  intro hauthor
  have hnamed := (noRides_of_noAssets h).2.2
  rw [namesOwner, List.any_eq_false] at hnamed
  exact hnamed (quote, key) (OrderedMap.find_eq_some.mp hauthor) (by simp)

variable [Clock]

theorem playerSeen_credited (s : ConquisterState) (quotes : Quotes) (userId : ℤ) (username accountName : Str)
    (limit : ℕ) (now : ℤ) (h : Credited ⟨s, quotes⟩) :
    Credited ⟨(playerSeen s userId username accountName limit now).2, quotes⟩ := by
  obtain ⟨welcomed, hledgers, -, hseen⟩ := playerSeen_ledgers s userId username accountName limit now
  have hwelcomed : Credited ⟨welcomed, quotes⟩ := h.of_ledgers rfl hledgers
  rw [hseen, countDay]
  split
  · exact hwelcomed.congr rfl rfl rfl
  · exact hwelcomed

omit [Clock] in
theorem playerLink_credited {s t : ConquisterState} {quotes : Quotes} {userId : ℤ} {username otherName accountName : Str}
    {status : LinkStatus} (hlink : playerLink s userId username otherName accountName = .ok (status, t))
    (h : Credited ⟨s, quotes⟩) : Credited ⟨t, quotes⟩ := by
  rcases playerLink_ledgers hlink with hsame | ⟨dropped, hassets, hledgers⟩
  · exact h.of_ledgers rfl hsame
  · have hauthors : t.quoteAuthors = s.quoteAuthors := congrArg Ledgers.quoteAuthors hledgers
    have hadded : t.quotesAdded = s.quotesAdded.erase dropped := congrArg Ledgers.quotesAdded hledgers
    rw [Credited, hauthors, hadded]
    apply Tallied.forget h (uncredited_of_noAssets hassets)
    exact fun other => counter_erase _ _ _

/-- Whatever is asked of the game, quotes and credits go on agreeing. -/
theorem step_credited {files files' : Files} {op : Op} {reply : Reply} (h : step files op = .ok (reply, files'))
    (hcredited : Credited files) : Credited files' := by
  by_cases hop : op.writesLedgers = false
  · obtain ⟨hledgers, hquotes⟩ := step_ledgers h hop
    exact hcredited.of_ledgers hquotes hledgers
  · cases op with
    | seen userId username accountName furnitureLimit now =>
      cases h
      exact playerSeen_credited files.state files.quotes userId username accountName furnitureLimit now hcredited
    | link userId username otherName accountName =>
      obtain ⟨status, hlink, -, hquotes⟩ := Files.only_eq_ok h
      rw [Credited, hquotes]
      exact playerLink_credited hlink hcredited
    | quoteAdd username quote cost =>
      rw [step] at h
      split at h
      · cases h
      · rename_i result state quotes hadd
        cases h
        exact quoteAdd_credited hadd hcredited
    | quoteDelete selector =>
      have hdeleted := quoteDelete_credited selector hcredited
      rw [step] at h
      split at h
      rename_i removed state quotes hdelete
      cases h
      rw [hdelete] at hdeleted
      exact hdeleted
    | invite newcomer inviter platform now =>
      obtain ⟨hauthors, hadded⟩ := inviteRecord_credits files.state newcomer inviter platform now
      rw [step] at h
      split at h
      rename_i status shown state hrecord
      cases h
      rw [hrecord] at hauthors hadded
      exact hcredited.congr rfl hauthors hadded
    | reward newcomer samePerson =>
      obtain ⟨hauthors, hadded⟩ := inviteDue_credits files.state newcomer samePerson
      cases h
      exact hcredited.congr rfl hauthors hadded
    | _ => exact absurd rfl hop

theorem run_credited {files : Files} (ops : List Op) (h : Credited files) : Credited (files.run ops) := by
  induction ops generalizing files with
  | nil => exact h
  | cons op ops ih =>
    apply ih
    cases hop : step files op with
    | error failure =>
      rw [Files.after, hop]
      exact h
    | ok result =>
      obtain ⟨reply, files'⟩ := result
      rw [Files.after_eq hop]
      exact step_credited hop h

end

/-- The number shown with a quote selects it. -/
theorem selectedQuote_decimal {quotes : Quotes} {position : ℕ} {quote : Str}
    (h : quotes[position]? = some quote) (hsmall : position < 2 ^ 62) :
    selectedQuote quotes (decimal (position + 1 : ℕ)) = some position := by
  have hlt := (List.getElem?_eq_some_iff.mp h).1
  have hwithin : (some ((position + 1 : ℕ) : ℤ)).filter (fun position =>
      0 < position && decide (position ≤ (quotes.length : ℤ))) = some ((position + 1 : ℕ) : ℤ) := by
    rw [Option.filter_some, if_pos]
    simp only [Bool.and_eq_true, decide_eq_true_eq]
    omega
  rw [selectedQuote, parseInt64_decimal (by omega), hwithin]
  simp

section
variable [SlotCodec] [Clock]

/-- From an empty collection on, the quotes are told apart, whoever is on record as an author is of one in
the collection, and everybody is credited with as many as he is the author of; and each number on a page
deletes the quote it is shown with. -/
theorem quote_credits_match {files : Files} (hnone : NoQuotes files) (ops : List Op) :
    (files.run ops).quotes.Nodup ∧
    (∀ quote author, (files.run ops).state.quoteAuthors.find quote = some author → quote ∈ (files.run ops).quotes) ∧
    (∀ player, counter (files.run ops).state.quotesAdded player =
      (files.run ops).quotes.countP fun quote => (files.run ops).state.quoteAuthors.find quote = some player) ∧
    ∀ requestedPage index quote, (quotePageLoad (files.run ops) requestedPage).items[index]? = some quote →
      ∃ files', step (files.run ops)
          (.quoteDelete (decimal ((quotePageLoad (files.run ops) requestedPage).firstNumber + index : ℕ))) =
        .ok (.quoteDelete (some quote), files') ∧ files'.quotes = (files.run ops).quotes.erase quote := by
  have hcredited := run_credited ops hnone.credited
  refine ⟨hcredited.distinct, hcredited.listed, hcredited.counted, ?_⟩
  intro requestedPage index quote hitem
  obtain ⟨position, hnumber, hsmall, hquote⟩ := quotePageLoad_item hitem
  have hselected := selectedQuote_decimal hquote hsmall
  obtain ⟨removed, hremoved, hdelete⟩ := quoteDelete_eq (s := (files.run ops).state) hcredited.distinct hselected
  rw [hquote] at hremoved
  cases hremoved
  refine ⟨⟨forgetAuthor (files.run ops).state quote, (files.run ops).quotes.erase quote⟩, ?_, rfl⟩
  rw [step, hnumber, hdelete]

end

def numberedQuotes : List Op := [
  .quoteAdd (utf8 "irc:ada") (utf8 "uno") 0,
  .quoteAdd (utf8 "irc:bob") (utf8 "3") 0,
  .quoteAdd (utf8 "irc:ada") (utf8 "1") 0]

/-- The second of three quotes is a 3; its own number is what deletes it. -/
theorem quote_credits_match_number :
    (∀ player, counter (@Files.run _ utc {} numberedQuotes).state.quotesAdded player =
      (@Files.run _ utc {} numberedQuotes).quotes.countP fun quote =>
        (@Files.run _ utc {} numberedQuotes).state.quoteAuthors.find quote = some player) ∧
    ∃ files', @step _ utc (@Files.run _ utc {} numberedQuotes) (.quoteDelete (decimal 2)) =
      .ok (.quoteDelete (some (utf8 "3")), files') ∧
      files'.quotes = (@Files.run _ utc {} numberedQuotes).quotes.erase (utf8 "3") := by
  have hmatch := @quote_credits_match _ utc {} ⟨rfl, fun _ => rfl, fun _ => rfl⟩ numberedQuotes
  have hitem : (quotePageLoad (@Files.run _ utc {} numberedQuotes) 1).items[1]? = some (utf8 "3") := by
    decide +kernel
  have hnumber : (quotePageLoad (@Files.run _ utc {} numberedQuotes) 1).firstNumber + 1 = 2 := by
    decide +kernel
  refine ⟨hmatch.2.2.1, ?_⟩
  have hdeleted := hmatch.2.2.2 1 1 (utf8 "3") hitem
  rw [hnumber] at hdeleted
  exact hdeleted

end NorelecBot
