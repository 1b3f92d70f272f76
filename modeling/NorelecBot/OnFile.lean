import NorelecBot.AllOrNothing
import NorelecBot.Lib.Following
import NorelecBot.Runs

/-! # The game on file

What transactions leave in the two files, read again by the next one, is what the
same transactions make of the documents kept at hand: lazy loading, saving only what
changed, saves that fail and starts in between all included.
-/

namespace NorelecBot
open Lib

/-- What a function does when nothing is to be loaded: its result, unless it throws, and the documents it leaves. -/
def Transaction.meaning {Result : Type} (world : Surroundings) : Transaction Result → Files → ℕ → Option Result × Files
  | finish result, files, _ => (some result, files)
  | raise, files, _ => (none, files)
  | state change next _, files, asked =>
    meaning world (next files.state) { files with state := change files.state } asked
  | quotes change next _, files, asked =>
    meaning world (next files.quotes) { files with quotes := change files.quotes } asked
  | randomIndex count next, files, asked =>
    meaning world (next (NorelecBot.randomIndex (world.draw asked) count)) files (asked + 1)
  | backup next caught, files, asked =>
    if world.copied asked then meaning world next files (asked + 1) else meaning world caught files (asked + 1)

def Transaction.map {Result Other : Type} (f : Result → Other) : Transaction Result → Transaction Other
  | finish result => finish (f result)
  | raise => raise
  | state change next caught => state change (fun seen => (next seen).map f) (caught.map f)
  | quotes change next caught => quotes change (fun seen => (next seen).map f) (caught.map f)
  | randomIndex count next => randomIndex count fun drawn => (next drawn).map f
  | backup next caught => backup (next.map f) (caught.map f)

theorem Transaction.meaning_map {Result Other : Type} (f : Result → Other) (world : Surroundings)
    (function : Transaction Result) (files : Files) (asked : ℕ) :
    (function.map f).meaning world files asked =
      ((function.meaning world files asked).1.map f, (function.meaning world files asked).2) := by
  induction function generalizing files asked with
  | finish | raise => rfl
  | state change next caught ihnext | quotes change next caught ihnext =>
    rw [map, meaning, meaning]
    exact ihnext _ _ _
  | randomIndex count next ihnext =>
    rw [map, meaning, meaning]
    exact ihnext _ _ _
  | backup next caught ihnext ihcaught =>
    rw [map, meaning, meaning]
    split
    · exact ihnext _ _
    · exact ihcaught _ _

/-- The two documents, kept at hand, and whether the state was ever saved. -/
structure Archive where
  files : Files
  saved : Bool

/-- A state never saved has nothing to copy. -/
def Archive.world (archive : Archive) (world : Surroundings) : Surroundings :=
  { world with copied := fun asked => !archive.saved || world.copied asked }

def File.isThere : File → Bool
  | .missing => false
  | _ => true

/-- What an old save may still have, and a new one has not. -/
def legacySections : List Str :=
  [utf8 "shields", utf8 "raid_shields", utf8 "raid_resistance_levels", utf8 "raid_resistance_since", utf8 "boosts"]

def hasLegacyShields : File → Bool
  | .document json => legacySections.any json.contains
  | _ => false

/-- The two files hold these documents, whenever they are read, and nothing older. -/
structure Holds (disk : Disk) (archive : Archive) : Prop where
  state : ∀ now, loadState now disk.conquister = some archive.files.state
  quotes : loadQuotes disk.quotes = some archive.files.quotes
  saved : archive.saved = disk.conquister.isThere
  current : hasLegacyShields disk.conquister = false

def StorageSession.documents (session : StorageSession) (files : Files) : Files where
  state := session.state.elim files.state StorageSession.Loaded.current
  quotes := session.quotes.elim files.quotes StorageSession.Loaded.current

theorem StorageSession.Loaded.use_eq {Document : Type} (loaded : Option (StorageSession.Loaded Document)) {load : Option Document}
    {base : Document} (hload : load = some base) (change : Document → Document) :
    ∃ used, StorageSession.Loaded.use loaded load change =
        some (loaded.elim base StorageSession.Loaded.current, used) ∧
      used.current = change (loaded.elim base StorageSession.Loaded.current) := by
  cases loaded with
  | some document => exact ⟨_, rfl, rfl⟩
  | none =>
    rw [hload]
    exact ⟨_, rfl, rfl⟩

variable {Result : Type} {disk : Disk} {archive : Archive}

theorem Holds.copied (h : Holds disk archive) (world : Surroundings) (asked : ℕ) :
    (archive.world world).copied asked = backupMade disk (world.copied asked) := by
  rw [Archive.world, h.saved, backupMade]
  cases disk.conquister <;> simp [File.isThere]

/-- Loading a document on first use, or having it at hand. -/
theorem Transaction.run_meaning (world : Surroundings) (h : Holds disk archive) (function : Transaction Result)
    (session : StorageSession) :
    function.meaning (archive.world world) (session.documents archive.files) session.asked =
      ((function.run world disk session).1, (function.run world disk session).2.documents archive.files) := by
  induction function generalizing session with
  | finish result => rfl
  | raise => rfl
  | state change next caught ihnext ihcaught =>
    obtain ⟨used, huse, hcurrent⟩ := StorageSession.Loaded.use_eq session.state (h.state world.now) change
    rw [run, huse, meaning]
    dsimp only
    rw [← ihnext]
    simp only [StorageSession.documents, Option.elim_some, hcurrent]
  | quotes change next caught ihnext ihcaught =>
    obtain ⟨used, huse, hcurrent⟩ := StorageSession.Loaded.use_eq session.quotes h.quotes change
    rw [run, huse, meaning]
    dsimp only
    rw [← ihnext]
    simp only [StorageSession.documents, Option.elim_some, hcurrent]
  | randomIndex count next ihnext =>
    rw [run, meaning, ← ihnext]
    rfl
  | backup next caught ihnext ihcaught =>
    rw [run, meaning, h.copied]
    by_cases hmade : backupMade disk (world.copied session.asked) = true
    · rw [if_pos hmade, if_pos hmade, ← ihnext]
      rfl
    · rw [if_neg hmade, if_neg hmade, ← ihcaught]
      rfl

/-- The documents once the writes of a function that returned are over, and whether all of them went through. -/
def Archive.commit (archive : Archive) (pattern : SavePattern) (meant : Files) : Bool × Archive :=
  let quotesChanged := meant.quotes ≠ archive.files.quotes
  if quotesChanged ∧ pattern.quotes ≠ .saved then (false, archive)
  else if meant.state = archive.files.state then (true, { archive with files := meant })
  else match pattern.state with
    | .saved => (true, ⟨meant, true⟩)
    -- what was saved of the quotes stays
    | .threw => (false, { archive with files := { archive.files with quotes := meant.quotes } })
    | .refused =>
      if quotesChanged ∧ pattern.rollback ≠ .saved
      then (false, { archive with files := { archive.files with quotes := meant.quotes } })
      else (false, archive)

def Archive.transaction (archive : Archive) (world : Surroundings) (pattern : SavePattern) (function : Transaction Result) :
    Option Result × Archive :=
  match function.meaning (archive.world world) archive.files 0 with
  | (none, _) => (none, archive)
  | (some result, meant) =>
    if (archive.commit pattern meant).1 then (some result, (archive.commit pattern meant).2)
    else (none, (archive.commit pattern meant).2)

/-- What can be written down and read again: slots that fit a size, and no quote without a text. -/
structure Writable (files : Files) : Prop where
  slots : ∀ holder, files.state.current = some holder → SlotsFit holder
  quotes : [] ∉ files.quotes

theorem quoteEntry_str {quote : Str} (h : quote ≠ []) : quoteEntry (.str quote) = some quote := by
  rw [quoteEntry, if_neg h]

/-- A collection without empty texts reads back as it was. -/
theorem loadQuotes_quotesToJson {quotes : Quotes} (h : [] ∉ quotes) :
    loadQuotes (.document (quotesToJson quotes)) = some quotes := by
  change (quotes.map Json.str).mapM quoteEntry = some quotes
  induction quotes with
  | nil => rfl
  | cons quote quotes ih =>
    rw [List.mem_cons, not_or] at h
    rw [List.map_cons, List.mapM_cons, quoteEntry_str (Ne.symm h.1), ih h.2]
    rfl

theorem loadQuotes_nonempty {file : File} {quotes : Quotes} (h : loadQuotes file = some quotes) : [] ∉ quotes := by
  cases file with
  | missing =>
    cases h
    exact List.not_mem_nil
  | broken => cases h
  | document json =>
    cases json with
    | arr entries =>
      have hall : entries.mapM quoteEntry = some quotes := h
      have hentries := mapM_quoteEntry hall
      intro hempty
      have hmem : Json.str [] ∈ entries := by
        rw [hentries]
        exact List.mem_map_of_mem hempty
      have hnone : quoteEntry (.str []) = none := rfl
      obtain ⟨before, after, hsplit⟩ := List.append_of_mem hmem
      rw [hsplit, List.mapM_append, List.mapM_cons, hnone] at hall
      simp at hall
    | _ => cases h

theorem loadState_fit {now : ℤ} {file : File} {state : ConquisterState} (h : loadState now file = some state) :
    ∀ holder, state.current = some holder → SlotsFit holder := by
  cases file with
  | missing =>
    cases h
    simp
  | broken => cases h
  | document json =>
    rw [loadState] at h
    cases hparse : parseState now json with
    | error failure => simp [hparse, Except.toOption] at h
    | ok read =>
      simp only [hparse, Except.toOption, Option.some.injEq] at h
      subst h
      exact parseState_fit now json read hparse

/-- What was read can be written. -/
theorem Holds.writable (h : Holds disk archive) : Writable archive.files :=
  ⟨loadState_fit (h.state 0), loadQuotes_nonempty h.quotes⟩

theorem Holds.writeQuotes (h : Holds disk archive) {quotes : Quotes} (hquotes : [] ∉ quotes) :
    Holds { disk with quotes := .document (quotesToJson quotes) }
      { archive with files := { archive.files with quotes := quotes } } where
  state := h.state
  quotes := loadQuotes_quotesToJson hquotes
  saved := h.saved
  current := h.current

/-- What is written has none of the old sections. -/
theorem hasLegacyShields_stateToJson (state : ConquisterState) :
    hasLegacyShields (.document (stateToJson state)) = false := by
  have hnone : ∀ name ∈ legacySections, (stateToJson state).contains name = false := by
    intro name hname
    have hunwritten : name ∉ stateNames := by revert name; decide +kernel
    rw [Json.contains, find_unwritten state hunwritten]
    rfl
  rw [hasLegacyShields, List.any_eq_false]
  exact fun name hname => by simp [hnone name hname]

theorem Holds.writeState (h : Holds disk archive) {state : ConquisterState}
    (hfit : ∀ holder, state.current = some holder → SlotsFit holder) :
    Holds { disk with conquister := .document (stateToJson state) } ⟨{ archive.files with state := state }, true⟩ where
  state now := by rw [loadState, parseState_stateToJson now state hfit]; rfl
  quotes := h.quotes
  saved := rfl
  current := hasLegacyShields_stateToJson state

section
variable {now : ℤ} {session : StorageSession} (hfaithful : session.Faithful now disk) (h : Holds disk archive)
include hfaithful h

theorem changed_state : changed session.state =
    if (session.documents archive.files).state = archive.files.state then none
    else some (session.documents archive.files).state := by
  cases hstate : session.state with
  | none => simp [changed, StorageSession.documents, hstate]
  | some loaded =>
    have horiginal : loaded.original = archive.files.state :=
      Option.some.inj ((hfaithful.state loaded hstate).symm.trans (h.state now))
    simp [changed, StorageSession.documents, hstate, horiginal]

theorem changed_quotes : changed session.quotes =
    if (session.documents archive.files).quotes = archive.files.quotes then none
    else some (session.documents archive.files).quotes := by
  cases hquotes : session.quotes with
  | none => simp [changed, StorageSession.documents, hquotes]
  | some loaded =>
    have horiginal : loaded.original = archive.files.quotes :=
      Option.some.inj ((hfaithful.quotes loaded hquotes).symm.trans h.quotes)
    simp [changed, StorageSession.documents, hquotes, horiginal]

/-- Where quotes were changed they can be put back. -/
theorem rollback_eq (pattern : SavePattern) (hchanged : (session.documents archive.files).quotes ≠ archive.files.quotes)
    (saved : Disk) : (rollback pattern session true saved).1 =
      { saved with quotes := saveJson pattern.rollback saved.quotes (quotesToJson archive.files.quotes) } := by
  cases hquotes : session.quotes with
  | none => simp [StorageSession.documents, hquotes] at hchanged
  | some loaded =>
    have horiginal : loaded.original = archive.files.quotes :=
      Option.some.inj ((hfaithful.quotes loaded hquotes).symm.trans h.quotes)
    simp [rollback, hquotes, horiginal]

/-- The second half of a save, once the quotes are as they are to be. -/
theorem saveState_commit {pattern : SavePattern} {result : Result} {meant : Files} (hmeant : meant = session.documents archive.files)
    (hwritable : Writable meant) (quotesSaved : Bool) (writes : List Write)
    (hquotes : quotesSaved = true ↔ meant.quotes ≠ archive.files.quotes)
    (hgood : meant.quotes ≠ archive.files.quotes → pattern.quotes = .saved) {saved : Disk}
    (hsaved : Holds saved { archive with files := { archive.files with quotes := meant.quotes } }) :
    let ended := saveState pattern session result quotesSaved saved writes
    ended.result = (if (archive.commit pattern meant).1 then some result else none) ∧
      Holds ended.disk (archive.commit pattern meant).2 := by
  intro ended
  have hfirst : ¬ (meant.quotes ≠ archive.files.quotes ∧ pattern.quotes ≠ .saved) := fun hboth => hboth.2 (hgood hboth.1)
  have hstate := changed_state hfaithful h
  rw [← hmeant] at hstate
  by_cases hsame : meant.state = archive.files.state
  · rw [if_pos hsame] at hstate
    have hended : ended = ⟨some result, saved, writes⟩ := by simp only [ended, saveState, hstate]
    have hcommit : archive.commit pattern meant = (true, { archive with files := meant }) := by
      rw [Archive.commit, if_neg hfirst, if_pos hsame]
    rw [hended, hcommit]
    refine ⟨rfl, ?_⟩
    have hfiles : meant = ⟨archive.files.state, meant.quotes⟩ := by rw [← hsame]
    rwa [hfiles]
  · rw [if_neg hsame] at hstate
    cases hpattern : pattern.state with
    | saved =>
      have hended : ended = ⟨some result, { saved with conquister := .document (stateToJson meant.state) },
          writes ++ [.conquister]⟩ := by
        simp only [ended, saveState, hstate, hpattern]
      have hcommit : archive.commit pattern meant = (true, ⟨meant, true⟩) := by
        simp only [Archive.commit, if_neg hfirst, if_neg hsame, hpattern]
      rw [hended, hcommit]
      exact ⟨rfl, hsaved.writeState hwritable.slots⟩
    | threw =>
      have hended : ended = ⟨none, saved, writes ++ [.conquister]⟩ := by simp only [ended, saveState, hstate, hpattern]
      have hcommit : archive.commit pattern meant =
          (false, { archive with files := { archive.files with quotes := meant.quotes } }) := by
        simp only [Archive.commit, if_neg hfirst, if_neg hsame, hpattern]
      rw [hended, hcommit]
      exact ⟨rfl, hsaved⟩
    | refused =>
      have hresult : ended.result = none := by simp only [ended, saveState, hstate, hpattern]
      have hdisk : ended.disk = (rollback pattern session quotesSaved saved).1 := by
        simp only [ended, saveState, hstate, hpattern]
      rw [hresult, hdisk]
      by_cases hchanged : meant.quotes = archive.files.quotes
      · have hno : quotesSaved = false := by
          rw [← Bool.not_eq_true, hquotes]
          exact not_not.mpr hchanged
        have hcommit : archive.commit pattern meant = (false, archive) := by
          simp [Archive.commit, hsame, hpattern, hchanged]
        have hrolled : (rollback pattern session quotesSaved saved).1 = saved := by
          rw [hno, rollback]
          split <;> rfl
        rw [hcommit, hrolled]
        refine ⟨rfl, ?_⟩
        rwa [hchanged] at hsaved
      · have hyes : quotesSaved = true := hquotes.mpr hchanged
        have hrolled := rollback_eq hfaithful h pattern (hmeant ▸ hchanged) saved
        rw [hyes, hrolled]
        by_cases hback : pattern.rollback = .saved
        · have hcommit : archive.commit pattern meant = (false, archive) := by
            simp [Archive.commit, hsame, hpattern, hgood hchanged, hback]
          rw [hcommit, hback]
          exact ⟨rfl, hsaved.writeQuotes h.writable.quotes⟩
        · have hcommit : archive.commit pattern meant =
              (false, { archive with files := { archive.files with quotes := meant.quotes } }) := by
            simp [Archive.commit, hsame, hpattern, hgood hchanged, hback, hchanged]
          have hfile : saveJson pattern.rollback saved.quotes (quotesToJson archive.files.quotes) = saved.quotes := by
            cases hrollback : pattern.rollback with
            | saved => exact absurd hrollback hback
            | refused => rfl
            | threw => rfl
          rw [hcommit, hfile]
          exact ⟨rfl, hsaved⟩

/-- A save over the files is a commit over the documents. -/
theorem save_commit (pattern : SavePattern) (result : Result) {meant : Files} (hmeant : meant = session.documents archive.files)
    (hwritable : Writable meant) :
    (save pattern session result disk).result = (if (archive.commit pattern meant).1 then some result else none) ∧
      Holds (save pattern session result disk).disk (archive.commit pattern meant).2 := by
  have hquotes := changed_quotes hfaithful h
  rw [← hmeant] at hquotes
  by_cases hsame : meant.quotes = archive.files.quotes
  · rw [if_pos hsame] at hquotes
    have hsave : save pattern session result disk = saveState pattern session result false disk [] := by
      simp only [save, hquotes]
    rw [hsave]
    apply saveState_commit hfaithful h hmeant hwritable false []
    · simp [hsame]
    · exact fun hchanged => absurd hsame hchanged
    · rwa [hsame]
  · rw [if_neg hsame] at hquotes
    cases hpattern : pattern.quotes with
    | saved =>
      have hsave : save pattern session result disk = saveState pattern session result true
          { disk with quotes := .document (quotesToJson meant.quotes) } [.quotes] := by
        simp only [save, hquotes, hpattern]
      rw [hsave]
      apply saveState_commit hfaithful h hmeant hwritable true [.quotes]
      · simp [hsame]
      · exact fun _ => hpattern
      · exact h.writeQuotes hwritable.quotes
    | refused | threw =>
      have hcommit : archive.commit pattern meant = (false, archive) := by simp [Archive.commit, hsame, hpattern]
      rw [hcommit]
      simp only [save, hquotes, hpattern]
      exact ⟨rfl, h⟩

end

/-- A transaction over the files answers as one over the documents, and leaves the files holding what that leaves. -/
theorem transaction_follows (h : Holds disk archive) (world : Surroundings) (pattern : SavePattern)
    (function : Transaction Result)
    (hwritable : ∀ result meant, function.meaning (archive.world world) archive.files 0 = (some result, meant) → Writable meant) :
    (transaction world pattern function disk).result = (archive.transaction world pattern function).1 ∧
      Holds (transaction world pattern function disk).disk (archive.transaction world pattern function).2 := by
  have hmeaning := Transaction.run_meaning world h function {}
  have hempty : ({} : StorageSession).documents archive.files = archive.files := rfl
  rw [hempty] at hmeaning
  have hfaithful := run_faithful world disk function
  cases hrun : function.run world disk {} with
  | mk result session =>
    rw [hrun] at hmeaning hfaithful
    cases result with
    | none => simpa only [transaction, hrun, Archive.transaction, hmeaning, true_and] using h
    | some result =>
      obtain ⟨hresult, hdisk⟩ := save_commit hfaithful h pattern result rfl (hwritable _ _ hmeaning)
      simp only [transaction, hrun, Archive.transaction, hmeaning]
      split
      · rename_i hwent
        rw [if_pos hwent] at hresult
        exact ⟨hresult, hdisk⟩
      · rename_i hwent
        rw [if_neg hwent] at hresult
        exact ⟨hresult, hdisk⟩

/-- The constructor: both files must load, and an old save is written again without what is gone. The files it leaves,
and whether it went through. -/
def openStorage (now : ℤ) (outcome : SaveOutcome) (disk : Disk) : Bool × Disk :=
  match loadState now disk.conquister, loadQuotes disk.quotes with
  | some state, some _ =>
    if hasLegacyShields disk.conquister then
      (decide (outcome = .saved), { disk with conquister := saveJson outcome disk.conquister (stateToJson state) })
    else (true, disk)
  | _, _ => (false, disk)

theorem parseBalloons_timeless {json : Json} (h : json.find (utf8 "shields") = none) (now later : ℤ) :
    parseBalloons now json = parseBalloons later json := by
  have hshields : parseCounters json (utf8 "shields") = .ok .empty := by rw [parseCounters, h]
  rw [parseBalloons, parseBalloons, hshields]
  rfl

/-- Only shields are read by the clock. -/
theorem parseState_timeless {json : Json} (h : json.find (utf8 "shields") = none) (now later : ℤ) :
    parseState now json = parseState later json := by
  rw [parseState, parseState, parseBalloons_timeless h now later]

theorem loadState_timeless {file : File} (h : hasLegacyShields file = false) (now later : ℤ) :
    loadState now file = loadState later file := by
  cases file with
  | missing | broken => rfl
  | document json =>
    have hnone : json.find (utf8 "shields") = none := by
      simp only [hasLegacyShields, legacySections, List.any_cons, Bool.or_eq_false_iff] at h
      simpa [Json.contains] using h.1
    rw [loadState, loadState, parseState_timeless hnone now later]

/-- What a start that goes through leaves on file is what it read. -/
theorem openStorage_holds {now : ℤ} {outcome : SaveOutcome} {disk disk' : Disk} (h : openStorage now outcome disk = (true, disk')) :
    ∃ archive, loadState now disk.conquister = some archive.files.state ∧
      loadQuotes disk.quotes = some archive.files.quotes ∧ Holds disk' archive := by
  rw [openStorage] at h
  cases hstate : loadState now disk.conquister with
  | none => simp [hstate] at h
  | some state =>
    cases hquotes : loadQuotes disk.quotes with
    | none => simp [hstate, hquotes] at h
    | some quotes =>
      simp only [hstate, hquotes] at h
      by_cases hlegacy : hasLegacyShields disk.conquister = true
      · rw [if_pos hlegacy, Prod.mk.injEq, decide_eq_true_eq] at h
        obtain ⟨rfl, rfl⟩ := h
        refine ⟨⟨⟨state, quotes⟩, true⟩, rfl, rfl, ?_⟩
        exact {
          state := fun later => by
            change (parseState later (stateToJson state)).toOption = some state
            rw [parseState_stateToJson later state (loadState_fit hstate)]
            rfl
          quotes := hquotes
          saved := rfl
          current := hasLegacyShields_stateToJson state }
      · rw [if_neg hlegacy, Prod.mk.injEq] at h
        obtain ⟨-, rfl⟩ := h
        have hcurrent : hasLegacyShields disk.conquister = false := Bool.eq_false_of_not_eq_true hlegacy
        refine ⟨⟨⟨state, quotes⟩, disk.conquister.isThere⟩, rfl, rfl, ?_⟩
        exact {
          state := fun later => (loadState_timeless hcurrent later now).trans hstate
          quotes := hquotes
          saved := rfl
          current := hcurrent }

/-- Another start changes nothing. -/
theorem openStorage_again (h : Holds disk archive) (now : ℤ) (outcome : SaveOutcome) :
    openStorage now outcome disk = (true, disk) := by
  simp [openStorage, h.state now, h.quotes, h.current]

/-- What is asked of the storage: a start of the bot, or a transaction. -/
inductive StorageRequest (Result : Type) where
  | start (now : ℤ) (outcome : SaveOutcome)
  | transaction (world : Surroundings) (pattern : SavePattern) (function : Transaction Result)

/-- Whether a start went through, or what a transaction returned. -/
inductive StorageAnswer (Result : Type) where
  | started (through : Bool)
  | ended (result : Option Result)
  deriving DecidableEq

def Storage.onDisk : Machine Disk (StorageRequest Result) (StorageAnswer Result)
  | disk, .start now outcome => (.started (openStorage now outcome disk).1, (openStorage now outcome disk).2)
  | disk, .transaction world pattern function =>
    (.ended (transaction world pattern function disk).result, (transaction world pattern function disk).disk)

/-- The same over documents at hand, for which a start is nothing. -/
def Storage.atHand : Machine Archive (StorageRequest Result) (StorageAnswer Result)
  | archive, .start .. => (.started true, archive)
  | archive, .transaction world pattern function =>
    (.ended (archive.transaction world pattern function).1, (archive.transaction world pattern function).2)

/-- What the function would leave can be written. -/
def StorageRequest.Writes (archive : Archive) : StorageRequest Result → Prop
  | .start .. => True
  | .transaction world _ function =>
    ∀ result meant, function.meaning (archive.world world) archive.files 0 = (some result, meant) → Writable meant

theorem onDisk_follows :
    Machine.Follows (@Storage.onDisk Result) Storage.atHand Holds StorageRequest.Writes where
  answer {disk archive request} h hwrites := by
    cases request with
    | start now outcome => rw [Storage.onDisk, openStorage_again h, Storage.atHand]
    | transaction world pattern function =>
      rw [Storage.onDisk, Storage.atHand, (transaction_follows h world pattern function hwrites).1]
  keeps {disk archive request} h hwrites := by
    cases request with
    | start now outcome => rwa [Storage.onDisk, openStorage_again h]
    | transaction world pattern function => exact (transaction_follows h world pattern function hwrites).2

/-- From a start that goes through on, whatever functions are run and whichever writes fail, however often the bot is
started again: all that is answered, and what the two files hold, is as if both documents had been kept at hand. -/
theorem storage_as_at_hand {now : ℤ} {outcome : SaveOutcome} {disk disk' : Disk}
    (h : openStorage now outcome disk = (true, disk')) :
    ∃ archive, loadState now disk.conquister = some archive.files.state ∧ loadQuotes disk.quotes = some archive.files.quotes ∧
      ∀ requests : List (StorageRequest Result), Storage.atHand.Asked StorageRequest.Writes archive requests →
        (Storage.onDisk.run disk' requests).1 = (Storage.atHand.run archive requests).1 ∧
          Holds (Storage.onDisk.run disk' requests).2 (Storage.atHand.run archive requests).2 := by
  obtain ⟨archive, hstate, hquotes, hholds⟩ := openStorage_holds h
  exact ⟨archive, hstate, hquotes, fun requests hasked => onDisk_follows.run hholds hasked⟩

/-- A quote whose author cannot be written down, and the bot started again. -/
def tornQuote : List (StorageRequest QuoteAddResult) :=
  [.transaction ⟨0, fun _ => 0, fun _ => true⟩ ⟨.saved, .threw, .saved⟩ unreadableName, .start 5 .saved]

theorem storage_as_at_hand_torn :
    loadQuotes (Storage.onDisk.run oneQuote tornQuote).2.quotes = some [utf8 "originale", utf8 "nuova"] := by
  have hopen : openStorage 0 .saved oneQuote = (true, oneQuote) := rfl
  obtain ⟨⟨⟨state, quotes⟩, saved⟩, hstate, hquotes, hrun⟩ := storage_as_at_hand hopen
  cases hstate
  cases hquotes
  have hasked : Storage.atHand.Asked StorageRequest.Writes ⟨⟨{}, [utf8 "originale"]⟩, saved⟩ tornQuote := by
    refine ⟨?_, trivial, trivial⟩
    intro result meant hmeaning
    cases hmeaning
    refine ⟨by simp, ?_⟩
    change [] ∉ [utf8 "originale", utf8 "nuova"]
    decide +kernel
  exact (hrun tornQuote hasked).2.quotes.trans rfl

end NorelecBot
