import NorelecBot.Storage

/-! # When a transaction is all or nothing

Everything before the writes leaves the disk alone. The writes lose something
where quotes are saved and the state then is not: an exception of `dump` passes
by the rollback, and a rollback cannot make a missing file missing again.
-/

namespace NorelecBot
open Lib

/-- What was loaded is still what the files hold. -/
structure StorageSession.Faithful (now : ℤ) (disk : Disk) (session : StorageSession) : Prop where
  state : ∀ loaded, session.state = some loaded → loadState now disk.conquister = some loaded.original
  quotes : ∀ loaded, session.quotes = some loaded → loadQuotes disk.quotes = some loaded.original

theorem StorageSession.Loaded.use_original {Document : Type} {loaded : Option (StorageSession.Loaded Document)} {load : Option Document}
    {change : Document → Document} {seen : Document} {used : StorageSession.Loaded Document}
    (hload : ∀ document, loaded = some document → load = some document.original)
    (h : StorageSession.Loaded.use loaded load change = some (seen, used)) : load = some used.original := by
  cases loaded with
  | some document =>
    cases h
    exact hload document rfl
  | none =>
    cases load with
    | none => cases h
    | some document =>
      cases h
      rfl

/-- One call after the other, a session keeps to the documents it loaded. -/
theorem Transaction.run_faithful {Result : Type} (world : Surroundings) (disk : Disk)
    (function : Transaction Result) (session : StorageSession) (h : session.Faithful world.now disk) :
    (function.run world disk session).2.Faithful world.now disk := by
  induction function generalizing session with
  | finish result => exact h
  | raise => exact h
  | state change next caught ihnext ihcaught =>
    rw [run]
    split
    · rename_i seen loaded huse
      apply ihnext
      constructor
      · intro document hdocument
        cases hdocument
        exact StorageSession.Loaded.use_original h.state huse
      · exact h.quotes
    · exact ihcaught session h
  | quotes change next caught ihnext ihcaught =>
    rw [run]
    split
    · rename_i seen loaded huse
      apply ihnext
      constructor
      · exact h.state
      · intro document hdocument
        cases hdocument
        exact StorageSession.Loaded.use_original h.quotes huse
    · exact ihcaught session h
  | randomIndex count next ihnext =>
    rw [run]
    exact ihnext _ _ ⟨h.state, h.quotes⟩
  | backup next caught ihnext ihcaught =>
    rw [run]
    split
    · exact ihnext _ ⟨h.state, h.quotes⟩
    · exact ihcaught _ ⟨h.state, h.quotes⟩

theorem run_faithful {Result : Type} (world : Surroundings) (disk : Disk) (function : Transaction Result) :
    (function.run world disk {}).2.Faithful world.now disk := by
  apply Transaction.run_faithful
  constructor <;> intro loaded hloaded <;> cases hloaded

theorem mapM_quoteEntry {entries : List Json} {quotes : Quotes} (h : entries.mapM quoteEntry = some quotes) :
    entries = quotes.map Json.str := by
  induction entries generalizing quotes with
  | nil =>
    cases h
    rfl
  | cons entry entries ih =>
    rw [List.mapM_cons] at h
    simp only [Option.bind_eq_bind, Option.bind_eq_some_iff] at h
    obtain ⟨quote, hquote, rest, hrest, hall⟩ := h
    cases hall
    have hentry : entry = .str quote := by
      cases entry with
      | str text =>
        rw [quoteEntry] at hquote
        split at hquote
        · cases hquote
        · cases hquote
          rfl
      | _ => cases hquote
    rw [hentry, ih hrest, List.map_cons]

/-- A valid collection that is there is written down as it was found. -/
theorem loadQuotes_document {file : File} {quotes : Quotes} (h : loadQuotes file = some quotes) :
    file = .missing ∨ file = .document (quotesToJson quotes) := by
  cases file with
  | missing => exact Or.inl rfl
  | broken => cases h
  | document json =>
    cases json with
    | arr entries =>
      right
      rw [mapM_quoteEntry h]
      rfl
    | _ => cases h

theorem quotesToJson_injective {left right : Quotes} (h : quotesToJson left = quotesToJson right) : left = right := by
  rw [quotesToJson, quotesToJson, Json.arr.injEq] at h
  exact List.map_injective_iff.mpr (fun a b hab => Json.str.inj hab) h

/-- Changed quotes on file are not what was there. -/
theorem document_ne_of_changed {file : File} {session : StorageSession} {quotes : Quotes}
    (hload : ∀ loaded, session.quotes = some loaded → loadQuotes file = some loaded.original)
    (hchanged : changed session.quotes = some quotes) : File.document (quotesToJson quotes) ≠ file := by
  intro hsame
  obtain ⟨loaded, hloaded, hcurrent⟩ := Option.bind_eq_some_iff.mp hchanged
  have hdiffers : loaded.current ≠ loaded.original := by
    intro heq
    simp [heq] at hcurrent
  rw [if_pos hdiffers] at hcurrent
  cases hcurrent
  rcases loadQuotes_document (hload loaded hloaded) with hmissing | hdocument
  · rw [hmissing] at hsame
    cases hsame
  · rw [hdocument] at hsame
    exact hdiffers (quotesToJson_injective (File.document.inj hsame))

/-- A document was saved as the function left it; unchanged, its file was not touched. -/
def Replaced (document : Option Json) (before after : File) (path : Write) (writes : List Write) : Prop :=
  match document with
  | some json => after = .document json
  | none => after = before ∧ path ∉ writes

/-- An exception leaves both files as they were if a rollback, where one is needed, works; a result
comes with both documents on file. -/
structure AllOrNothing {Result : Type} (pattern : SavePattern) (session : StorageSession) (before : Disk)
    (ended : Ended Result) : Prop where
  thrown : ended.result = none → pattern.rollback = .saved → ended.disk = before
  returned : ended.result ≠ none →
    Replaced ((changed session.quotes).map quotesToJson) before.quotes ended.disk.quotes .quotes ended.writes ∧
    Replaced ((changed session.state).map stateToJson) before.conquister ended.disk.conquister .conquister ended.writes

/-- Quotes were saved, the state then was not, and no rollback undoes it: `dump` threw, or there was
no file to go back to. -/
def Torn (pattern : SavePattern) (session : StorageSession) (before : Disk) : Prop :=
  changed session.quotes ≠ none ∧ changed session.state ≠ none ∧ pattern.quotes = .saved ∧
    pattern.rollback = .saved ∧ (pattern.state = .threw ∨ pattern.state = .refused ∧ before.quotes = .missing)

section Save
variable {Result : Type} {pattern : SavePattern} {session : StorageSession} {before : Disk} {result : Result}

theorem save_quotes_unchanged (hquotes : changed session.quotes = none) :
    AllOrNothing pattern session before (save pattern session result before) := by
  have hnone : (changed session.quotes).map quotesToJson = none := by rw [hquotes]; rfl
  simp only [save, hquotes]
  cases hstate : changed session.state with
  | none =>
    simp only [saveState, hstate]
    exact ⟨by simp, fun _ => ⟨by simp [Replaced, hnone], by simp [Replaced, hstate]⟩⟩
  | some state =>
    simp only [saveState, hstate]
    cases pattern.state with
    | saved => exact ⟨by simp, fun _ => ⟨by simp [Replaced, hnone], by simp [Replaced, hstate]⟩⟩
    | threw => exact ⟨fun _ _ => rfl, by simp⟩
    | refused =>
      have hdisk : (rollback pattern session false before).1 = before := by
        rw [rollback]
        cases session.quotes <;> rfl
      exact ⟨fun _ _ => hdisk, by simp⟩

theorem save_quotes_not_saved {quotes : Quotes} (hquotes : changed session.quotes = some quotes)
    (hfailed : pattern.quotes ≠ .saved) : AllOrNothing pattern session before (save pattern session result before) := by
  simp only [save, hquotes]
  cases hpattern : pattern.quotes with
  | saved => exact absurd hpattern hfailed
  | refused => exact ⟨fun _ _ => rfl, by simp⟩
  | threw => exact ⟨fun _ _ => rfl, by simp⟩

theorem save_both_saved {quotes : Quotes} (hquotes : changed session.quotes = some quotes)
    (hsaved : pattern.quotes = .saved) (hstate : changed session.state = none ∨ pattern.state = .saved) :
    AllOrNothing pattern session before (save pattern session result before) := by
  simp only [save, hquotes, hsaved]
  cases hchanged : changed session.state with
  | none =>
    simp only [saveState, hchanged]
    exact ⟨by simp, fun _ => ⟨by simp [Replaced, hquotes], by simp [Replaced, hchanged]⟩⟩
  | some state =>
    have hpattern : pattern.state = .saved := by
      rcases hstate with hnone | hpattern
      · rw [hchanged] at hnone
        cases hnone
      · exact hpattern
    simp only [saveState, hchanged, hpattern]
    exact ⟨by simp, fun _ => ⟨by simp [Replaced, hquotes], by simp [Replaced, hchanged]⟩⟩

/-- The way on which the state is not saved after the quotes were. -/
theorem save_torn_iff {now : ℤ} (hfaithful : session.Faithful now before) {quotes : Quotes}
    (hquotes : changed session.quotes = some quotes) (hsaved : pattern.quotes = .saved)
    (hstate : changed session.state ≠ none) (hfailed : pattern.state ≠ .saved) :
    AllOrNothing pattern session before (save pattern session result before) ↔
      ¬ Torn pattern session before := by
  have hnew := document_ne_of_changed hfaithful.quotes hquotes
  obtain ⟨state, hchanged⟩ := Option.ne_none_iff_exists'.mp hstate
  obtain ⟨loaded, hloaded, -⟩ := Option.bind_eq_some_iff.mp hquotes
  cases hpattern : pattern.state with
  | saved => exact absurd hpattern hfailed
  | threw =>
    have hended : save pattern session result before =
        ⟨none, { before with quotes := .document (quotesToJson quotes) }, [.quotes, .conquister]⟩ := by
      simp [save, hquotes, hsaved, saveState, hchanged, hpattern]
    rw [hended]
    constructor
    · intro hall htorn
      have hsame := hall.thrown rfl htorn.2.2.2.1
      exact hnew (congrArg Disk.quotes hsame)
    · intro htorn
      refine ⟨fun _ hrollback => absurd ?_ htorn, by simp⟩
      exact ⟨by simp [hquotes], hstate, hsaved, hrollback, Or.inl hpattern⟩
  | refused =>
    have hended : save pattern session result before =
        ⟨none, ⟨before.conquister,
          saveJson pattern.rollback (.document (quotesToJson quotes)) (quotesToJson loaded.original)⟩,
          [.quotes, .conquister, .quotes]⟩ := by
      simp only [save, hquotes, hsaved, saveState, hchanged, hpattern]
      simp [rollback, hloaded]
    rw [hended]
    constructor
    · intro hall htorn
      obtain ⟨-, -, -, hrollback, hwhy⟩ := htorn
      rcases hwhy with hthrew | ⟨-, hmissing⟩
      · rw [hpattern] at hthrew
        cases hthrew
      · have hsame := congrArg Disk.quotes (hall.thrown rfl hrollback)
        rw [hrollback, hmissing] at hsame
        cases hsame
    · intro htorn
      refine ⟨fun _ hrollback => ?_, by simp⟩
      rw [hrollback]
      rcases loadQuotes_document (hfaithful.quotes loaded hloaded) with hmissing | hdocument
      · exact absurd ⟨by simp [hquotes], hstate, hsaved, hrollback, Or.inr ⟨hpattern, hmissing⟩⟩ htorn
      · rw [saveJson, ← hdocument]

/-- What a save leaves behind, whatever was loaded and however its writes end. -/
theorem save_allOrNothing_iff {now : ℤ} (hfaithful : session.Faithful now before) :
    AllOrNothing pattern session before (save pattern session result before) ↔
      ¬ Torn pattern session before := by
  cases hquotes : changed session.quotes with
  | none => exact iff_of_true (save_quotes_unchanged hquotes) fun htorn => htorn.1 hquotes
  | some quotes =>
    by_cases hsaved : pattern.quotes = .saved
    · by_cases hstate : changed session.state = none ∨ pattern.state = .saved
      · refine iff_of_true (save_both_saved hquotes hsaved hstate) fun htorn => ?_
        rcases hstate with hnone | hpattern
        · exact htorn.2.1 hnone
        · rcases htorn.2.2.2.2 with hthrew | ⟨hrefused, -⟩
          · rw [hpattern] at hthrew
            cases hthrew
          · rw [hpattern] at hrefused
            cases hrefused
      · rw [not_or] at hstate
        exact save_torn_iff hfaithful hquotes hsaved hstate.1 hstate.2
    · exact iff_of_true (save_quotes_not_saved hquotes hsaved) fun htorn => hsaved htorn.2.2.1

end Save

/-- A transaction is all or nothing unless its function returned over quotes and a state it both
changed, and the second save tore them apart. -/
theorem transaction_allOrNothing_iff {Result : Type} (world : Surroundings) (pattern : SavePattern)
    (function : Transaction Result) (disk : Disk) :
    AllOrNothing pattern (function.run world disk {}).2 disk (transaction world pattern function disk) ↔
      ¬ ((function.run world disk {}).1 ≠ none ∧ Torn pattern (function.run world disk {}).2 disk) := by
  have hfaithful := run_faithful world disk function
  cases hrun : function.run world disk {} with
  | mk result session =>
    rw [hrun] at hfaithful
    cases result with
    | none =>
      have hended : transaction world pattern function disk = ⟨none, disk, []⟩ := by rw [transaction, hrun]
      rw [hended]
      exact iff_of_true ⟨fun _ _ => rfl, by simp⟩ fun h => h.1 rfl
    | some result =>
      have hended : transaction world pattern function disk = save pattern session result disk := by
        rw [transaction, hrun]
      rw [hended, save_allOrNothing_iff hfaithful]
      simp

/-- A quote by somebody whose name is not UTF-8: the quotes are saved, the state cannot be dumped. -/
def unreadableName : Transaction QuoteAddResult := quoteAddTransaction [255] (utf8 "nuova") 0

def oneQuote : Disk := ⟨.missing, .document (quotesToJson [utf8 "originale"])⟩

theorem quote_outlives_failed_transaction :
    (transaction ⟨0, fun _ => 0, fun _ => true⟩ ⟨.saved, .threw, .saved⟩ unreadableName oneQuote).result = none ∧
    (transaction ⟨0, fun _ => 0, fun _ => true⟩ ⟨.saved, .threw, .saved⟩ unreadableName oneQuote).disk ≠
      oneQuote := by
  refine ⟨rfl, fun hsame => ?_⟩
  have hquotes : quotesToJson [utf8 "originale", utf8 "nuova"] = quotesToJson [utf8 "originale"] :=
    File.document.inj (congrArg Disk.quotes hsame)
  have hlength := congrArg List.length (quotesToJson_injective hquotes)
  cases hlength

end NorelecBot
