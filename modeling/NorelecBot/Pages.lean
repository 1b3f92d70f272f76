import NorelecBot.Credits
import NorelecBot.Dispatch
import NorelecBot.Lib.Utf8

/-! # The quotes, page after page

What a page shows, a long quote cut short. Asked for one after another the pages show
every quote once, under its number, and no letter of a quote is ever cut in two.
-/

namespace NorelecBot
open Lib

/-- How many bytes the codepoint starting here takes; one where it is cut off or is none at all. -/
def codepointWidth : Str → ℕ
  | [] => 1
  | lead :: text =>
    let width := (Text.leadByte lead.toNat).1
    let follow := text.take (width - 1)
    if follow.length < width - 1 || follow.any (fun next => next.toNat < 0x80 || next.toNat > 0xBF) then 1 else width

def utf8PrefixBytes : Str → ℕ → ℕ
  | _, 0 => 0
  | [], _ + 1 => 0
  | lead :: text, codepoints + 1 =>
    codepointWidth (lead :: text) + utf8PrefixBytes ((lead :: text).drop (codepointWidth (lead :: text))) codepoints

def shownQuote (quote : Str) : Str :=
  if utf8PrefixBytes quote 80 < quote.length then quote.take (utf8PrefixBytes quote 77) ++ utf8 "…" else quote

def quoteLine (number : ℕ) (quote author : Str) : Str :=
  utf8 "\n" ++ decimal number ++ utf8 ") " ++ shownQuote quote ++ if author = [] then [] else utf8 " — " ++ author

def quoteLines (page : QuotePage) : List Str :=
  (page.items.zip page.authors).mapIdx fun index item => quoteLine (page.firstNumber + index) item.1 item.2

/-- Page 1 where no page is asked for, or none that a number of 32 bits can name. -/
def requestedPage (argument : Str) : Int32 :=
  match Text.parseInt64 argument with
  | some requested => if 0 < requested ∧ requested ≤ 2 ^ 31 - 1 then Int32.ofInt requested else 1
  | none => 1

def pageHead (page : QuotePage) : Str :=
  utf8 "Citazioni " ++ decimal page.firstNumber ++ utf8 "-" ++ decimal (page.firstNumber + page.items.length - 1 : ℕ) ++
    utf8 " di " ++ decimal page.total ++ utf8 " (pagina " ++ decimal page.page ++ utf8 "/" ++ decimal page.pages ++ utf8 "):"

def pageFoot (context : CommandContext) (page : QuotePage) : Str :=
  if 1 < page.pages then utf8 "\n\nUsa " ++ commandPrefix context ++ utf8 "quotes <pagina> per le altre pagine." else []

def quotesReply (context : CommandContext) (files : Files) (argument : Str) : Str :=
  let page := quotePageLoad files (requestedPage argument)
  if page.total = 0 then utf8 "Nessuna citazione in collezione."
  else pageHead page ++ (quoteLines page).flatten ++ pageFoot context page

def quotesRefused : Str := utf8 "Solo gli amministratori possono vedere le citazioni."

/-- The text of what `handleQuotes` answers. -/
def quotesText (context : CommandContext) (files : Files) (argument : Str) : Answer → Option Str
  | .notTrusted .quotes => some quotesRefused
  | .page .quotes => some (quotesReply context files argument)
  | _ => none

theorem leadByte_width : ∀ lead < 256, (Text.leadByte lead).1 =
    if 0xC0 ≤ lead ∧ lead < 0xE0 then 2 else if 0xE0 ≤ lead ∧ lead < 0xF0 then 3 else if 0xF0 ≤ lead ∧ lead < 0xF8 then 4
    else 1 := by
  decide +kernel

/-- The first byte of a letter announces how many follow. -/
theorem encodeChar_width (letter : Char) : ∃ lead more, String.utf8EncodeChar letter = lead :: more ∧
    (Text.leadByte lead.toNat).1 = more.length + 1 ∧ ∀ next ∈ more, Utf8.Continues next := by
  have hvalid : letter.val.toNat < 0x110000 := by
    rcases letter.valid with h | h
    · exact lt_trans h (by decide)
    · exact h.2
  simp only [String.utf8EncodeChar]
  split_ifs with hsmall htwo hthree
  · refine ⟨_, _, rfl, ?_, by simp⟩
    rw [leadByte_width _ (UInt8.toNat_lt _), UInt8.toNat_ofNat', if_neg (by omega), if_neg (by omega), if_neg (by omega)]
    rfl
  · refine ⟨_, _, rfl, ?_, List.forall_mem_singleton.mpr (Utf8.continues_ofNat _)⟩
    rw [leadByte_width _ (UInt8.toNat_lt _), UInt8.toNat_ofNat', if_pos (by omega)]
    rfl
  · refine ⟨_, _, rfl, ?_, List.forall_mem_cons.mpr ⟨Utf8.continues_ofNat _, ?_⟩⟩
    · rw [leadByte_width _ (UInt8.toNat_lt _), UInt8.toNat_ofNat', if_neg (by omega), if_pos (by omega)]
      rfl
    · exact List.forall_mem_singleton.mpr (Utf8.continues_ofNat _)
  · refine ⟨_, _, rfl, ?_, List.forall_mem_cons.mpr ⟨Utf8.continues_ofNat _, List.forall_mem_cons.mpr
      ⟨Utf8.continues_ofNat _, ?_⟩⟩⟩
    · rw [leadByte_width _ (UInt8.toNat_lt _), UInt8.toNat_ofNat', if_neg (by omega), if_neg (by omega), if_pos (by omega)]
      rfl
    · exact List.forall_mem_singleton.mpr (Utf8.continues_ofNat _)

theorem codepointWidth_letter (letter : Char) (rest : Str) :
    codepointWidth (String.utf8EncodeChar letter ++ rest) = (String.utf8EncodeChar letter).length := by
  obtain ⟨lead, more, hletter, hwidth, hmore⟩ := encodeChar_width letter
  have htake : (more ++ rest).take more.length = more := List.take_left
  have hany : more.any (fun next => next.toNat < 0x80 || next.toNat > 0xBF) = false := by
    rw [List.any_eq_false]
    intro next hnext
    have hcontinues := hmore next hnext
    rw [Utf8.Continues] at hcontinues
    simp only [Bool.or_eq_true, decide_eq_true_eq]
    omega
  rw [hletter, List.cons_append, codepointWidth]
  simp [hwidth, htake, hany]

/-- The prefix of so many codepoints holds so many letters, whole. -/
theorem utf8PrefixBytes_letters (letters : List Char) (codepoints : ℕ) :
    utf8PrefixBytes (letters.flatMap String.utf8EncodeChar) codepoints =
      ((letters.take codepoints).flatMap String.utf8EncodeChar).length := by
  induction letters generalizing codepoints with
  | nil => cases codepoints <;> rfl
  | cons letter letters ih =>
    cases codepoints with
    | zero => simp [utf8PrefixBytes]
    | succ codepoints =>
      obtain ⟨lead, more, hletter, -⟩ := encodeChar_width letter
      have hwidth := codepointWidth_letter letter (letters.flatMap String.utf8EncodeChar)
      have hdrop : (String.utf8EncodeChar letter ++ letters.flatMap String.utf8EncodeChar).drop
          (String.utf8EncodeChar letter).length = letters.flatMap String.utf8EncodeChar := List.drop_left
      rw [List.flatMap_cons, List.take_succ_cons, List.flatMap_cons, List.length_append, ← ih]
      rw [hletter, List.cons_append] at hwidth hdrop ⊢
      rw [utf8PrefixBytes, hwidth, hdrop]

theorem encoded_split (letters : List Char) (count : ℕ) :
    letters.flatMap String.utf8EncodeChar =
      (letters.take count).flatMap String.utf8EncodeChar ++ (letters.drop count).flatMap String.utf8EncodeChar := by
  rw [← List.flatMap_append, List.take_append_drop]

theorem encoded_take (letters : List Char) (count : ℕ) :
    (letters.flatMap String.utf8EncodeChar).take ((letters.take count).flatMap String.utf8EncodeChar).length =
      (letters.take count).flatMap String.utf8EncodeChar := by
  rw [encoded_split letters count, List.take_left]

theorem encoded_take_lt (letters : List Char) (count : ℕ) :
    ((letters.take count).flatMap String.utf8EncodeChar).length < (letters.flatMap String.utf8EncodeChar).length ↔
      count < letters.length := by
  rw [encoded_split letters count, List.length_append, Nat.lt_add_right_iff_pos]
  cases hdrop : letters.drop count with
  | nil => simpa using hdrop
  | cons letter others =>
    obtain ⟨lead, more, hletter, -⟩ := encodeChar_width letter
    have hlong : count < letters.length := by
      by_contra hshort
      rw [List.drop_eq_nil_of_le (by omega)] at hdrop
      cases hdrop
    simp [hletter, hlong]

/-- A quote of up to eighty letters is shown as it is, a longer one by its first seventy-seven. -/
theorem shown_by_letters (letters : List Char) :
    shownQuote (letters.flatMap String.utf8EncodeChar) =
      (if letters.length ≤ 80 then letters else letters.take 77 ++ ['…']).flatMap String.utf8EncodeChar := by
  have hcut := encoded_take_lt letters 80
  rw [← utf8PrefixBytes_letters] at hcut
  by_cases hlong : 80 < letters.length
  · rw [shownQuote, if_pos (hcut.mpr hlong), utf8PrefixBytes_letters, encoded_take, if_neg (by omega), List.flatMap_append]
    rfl
  · rw [shownQuote, if_neg (fun hshort => hlong (hcut.mp hshort)), if_pos (by omega)]

/-- A list is its pages, one after another. -/
theorem flatMap_pages {α : Type} (list : List α) (size pages : ℕ) :
    ((List.range pages).flatMap fun page => (list.drop (page * size)).take size) = list.take (pages * size) := by
  induction pages with
  | zero => simp
  | succ pages ih => rw [List.range_succ, List.flatMap_append, ih, List.flatMap_singleton, Nat.succ_mul, List.take_add]

def authorOf (state : ConquisterState) (quote : Str) : Str := ((state.quoteAuthors.find quote).map (displayName state)).getD []

/-- Every quote as the pages show it, under its number. -/
def everyLine (files : Files) : List Str :=
  files.quotes.mapIdx fun index quote => quoteLine (index + 1) quote (authorOf files.state quote)

theorem quoteLines_load {files : Files} (hquotes : files.quotes ≠ []) (requested : Int32) :
    quoteLines (quotePageLoad files requested) =
      ((everyLine files).drop (((quotePageLoad files requested).page - 1) * quotesPageSize)).take quotesPageSize := by
  have hlength : files.quotes.length ≠ 0 := by simpa using hquotes
  rw [quotePageLoad, if_neg hlength, quoteLines]
  dsimp only
  rw [← List.map_prod_left_eq_zip]
  generalize (min _ _ - 1) * quotesPageSize = offset
  ext1 index
  by_cases hindex : index < quotesPageSize
  · simp [everyLine, authorOf, hindex, Function.comp_def, Nat.add_right_comm]
  · simp [hindex]

def pageCount (files : Files) : ℕ := (files.quotes.length + quotesPageSize - 1) / quotesPageSize

theorem load_page {files : Files} (hquotes : files.quotes ≠ []) (requested : Int32) :
    (quotePageLoad files requested).total = files.quotes.length ∧
      (quotePageLoad files requested).page = min (if 0 < requested.toInt then requested.toInt.toNat else 1) (pageCount files) := by
  have hlength : 0 < files.quotes.length := List.length_pos_iff.mpr hquotes
  have hcount : (files.quotes.length - 1) / quotesPageSize + 1 = pageCount files := by
    rw [pageCount, quotesPageSize]
    omega
  rw [quotePageLoad, if_neg hlength.ne', ← hcount]
  exact ⟨rfl, rfl⟩

/-- Only the number of the page matters. -/
theorem load_congr {files : Files} (hquotes : files.quotes ≠ []) {requested other : Int32}
    (h : (quotePageLoad files requested).page = (quotePageLoad files other).page) :
    quotePageLoad files requested = quotePageLoad files other := by
  have hlength : files.quotes.length ≠ 0 := by simpa using hquotes
  rw [quotePageLoad, quotePageLoad, if_neg hlength, if_neg hlength] at h ⊢
  dsimp only at h ⊢
  rw [h]

theorem requestedPage_decimal {page : ℕ} (hpage : 0 < page) (hsmall : page < 2 ^ 31) :
    (requestedPage (decimal page)).toInt = page := by
  rw [requestedPage, parseInt64_decimal (by omega)]
  dsimp only
  rw [if_pos (by omega), Int32.toInt_ofInt_of_le (by omega) (by omega)]

theorem handleQuotes_text (context : CommandContext) {moment : Moment} {desk : Desk}
    (hreads : moment.fails desk.opened = false) (argument : Str) :
    (handleQuotes context moment desk).1.bind (quotesText context desk.files argument) =
      some (if trusted context then quotesReply context desk.files argument else quotesRefused) := by
  by_cases htrusted : trusted context = true
  · have hanswer : (handleQuotes context moment desk).1 = some (.page .quotes) := by
      rw [handleQuotes, if_neg (by simp [htrusted]), Act.run_bind_some (consult_ok hreads)]
      rfl
    rw [hanswer, if_pos htrusted]
    rfl
  · rw [handleQuotes, if_pos htrusted, if_neg htrusted]
    rfl

/-- Whoever asks for them one after another sees every quote once, under the number that stands for it; and whatever
else is asked for, it is one of these pages that comes. Who is not trusted is told so. -/
theorem pages_tell_every_quote (context : CommandContext) {files : Files} (hquotes : files.quotes ≠ [])
    (hfits : files.quotes.length ≤ quotesPageSize * (2 ^ 31 - 1)) :
    let page (index : ℕ) := quotePageLoad files (requestedPage (decimal (index + 1 : ℕ)))
    (∀ index < pageCount files, quotesReply context files (decimal (index + 1 : ℕ)) =
        pageHead (page index) ++ (quoteLines (page index)).flatten ++ pageFoot context (page index)) ∧
      ((List.range (pageCount files)).flatMap fun index => quoteLines (page index)) = everyLine files ∧
      (∀ argument, ∃ index < pageCount files,
        quotesReply context files argument = quotesReply context files (decimal (index + 1 : ℕ))) ∧
      ∀ (moment : Moment) (desk : Desk) (argument : Str), desk.files = files → moment.fails desk.opened = false →
        (handleQuotes context moment desk).1.bind (quotesText context files argument) =
          some (if trusted context then quotesReply context files argument else quotesRefused) := by
  intro page
  have hlength : 0 < files.quotes.length := List.length_pos_iff.mpr hquotes
  have hpages : 0 < pageCount files ∧ pageCount files < 2 ^ 31 ∧ files.quotes.length ≤ pageCount files * quotesPageSize := by
    rw [pageCount, quotesPageSize] at *
    omega
  obtain ⟨hsome, hsmall, hall⟩ := hpages
  have hnumber {index : ℕ} (hindex : index < pageCount files) : (page index).page = index + 1 := by
    have hrequested := @requestedPage_decimal (index + 1) (by omega) (by omega)
    rw [(load_page hquotes _).2, hrequested, if_pos (by omega), Int.toNat_natCast]
    omega
  refine ⟨?_, ?_, ?_, ?_⟩
  · intro index _
    rw [quotesReply, if_neg]
    rw [(load_page hquotes _).1]
    exact hlength.ne'
  · have hlines : ∀ index ∈ List.range (pageCount files), quoteLines (page index) =
        ((everyLine files).drop (index * quotesPageSize)).take quotesPageSize := by
      intro index hindex
      rw [quoteLines_load hquotes, hnumber (List.mem_range.mp hindex), Nat.add_sub_cancel]
    rw [List.flatMap_congr hlines, flatMap_pages, List.take_of_length_le]
    simpa [everyLine] using hall
  · intro argument
    have hasked := (load_page hquotes (requestedPage argument)).2
    have hpositive : 0 < if 0 < (requestedPage argument).toInt then (requestedPage argument).toInt.toNat else 1 := by
      split_ifs
      · omega
      · omega
    generalize (if 0 < (requestedPage argument).toInt then (requestedPage argument).toInt.toNat else 1) = number at *
    have hindex : min number (pageCount files) - 1 < pageCount files := by omega
    have hsame : quotePageLoad files (requestedPage argument) = page (min number (pageCount files) - 1) := by
      apply load_congr hquotes
      change _ = (page (min number (pageCount files) - 1)).page
      rw [hasked, hnumber hindex]
      omega
    refine ⟨_, hindex, ?_⟩
    rw [quotesReply, quotesReply, hsame]
  · rintro moment desk argument rfl hreads
    exact handleQuotes_text context hreads argument

/-- Three quotes make one page, whatever is asked for. -/
theorem pages_tell_every_quote_three :
    ((List.range 1).flatMap fun index =>
        quoteLines (quotePageLoad (@Files.run _ utc {} numberedQuotes) (requestedPage (decimal (index + 1 : ℕ))))) =
      [utf8 "\n1) uno — irc:ada", utf8 "\n2) 3 — irc:bob", utf8 "\n3) 1 — irc:ada"] := by
  have hquotes : (@Files.run _ utc {} numberedQuotes).quotes ≠ [] := by decide +kernel
  have hcount : pageCount (@Files.run _ utc {} numberedQuotes) = 1 := by decide +kernel
  have hlines := (@pages_tell_every_quote {} _ hquotes (by rw [quotesPageSize]; decide +kernel)).2.1
  rw [hcount] at hlines
  rw [hlines]
  decide +kernel

end NorelecBot
