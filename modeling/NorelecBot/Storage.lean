import NorelecBot.ReadBack
import NorelecBot.Quotes

/-! # Transactions over the two files

A session loads each document on first use. When the function returns, changed
quotes are saved first and then the changed state; a state that is refused has
the quotes written back. What a function does with its session is a tree of the
calls it makes, whatever it goes on with after each.
-/

namespace NorelecBot
open Lib

/-- What stands at a path: nothing, something that cannot be opened or parsed, or a document. -/
inductive File where
  | missing
  | broken
  | document (json : Json)

/-- The two files, by what they hold. -/
structure Disk where
  conquister : File
  quotes : File

def loadState (now : ℤ) : File → Option ConquisterState
  | .missing => some {}
  | .broken => none
  | .document json => (parseState now json).toOption

/-- An entry of a valid collection: a text that is not empty. -/
def quoteEntry : Json → Option Str
  | .str text => if text = [] then none else some text
  | _ => none

def loadQuotes : File → Option Quotes
  | .missing => some []
  | .document (.arr entries) => entries.mapM quoteEntry
  | _ => none

def quotesToJson (quotes : Quotes) : Json := .arr (quotes.map Json.str)

/-- How a `save_json` ends: done, reported with false, or thrown by `dump`. -/
inductive SaveOutcome where
  | saved
  | refused
  | threw
  deriving DecidableEq, Repr

/-- A failed save leaves its file as it was. -/
def saveJson (outcome : SaveOutcome) (file : File) (json : Json) : File :=
  match outcome with
  | .saved => .document json
  | .refused => file
  | .threw => file

structure StorageSession.Loaded (Document : Type) where
  original : Document
  current : Document

/-- The document to save, when it is no longer the one loaded. -/
def changed {Document : Type} [DecidableEq Document] (loaded : Option (StorageSession.Loaded Document)) : Option Document :=
  loaded.bind fun document => if document.current ≠ document.original then some document.current else none

structure StorageSession where
  state : Option (StorageSession.Loaded ConquisterState) := none
  quotes : Option (StorageSession.Loaded Quotes) := none
  /-- How many numbers were drawn and how many backups made. -/
  asked : ℕ := 0

/-- What a function does with its session, call by call. A call that throws goes on with what the
function does if it catches that, `raise` if it does not. -/
inductive Transaction (Result : Type) where
  | finish (result : Result)
  | raise
  /-- `session.state()`, and what is written through the reference before the next call. -/
  | state (change : ConquisterState → ConquisterState) (next : ConquisterState → Transaction Result)
      (caught : Transaction Result)
  | quotes (change : Quotes → Quotes) (next : Quotes → Transaction Result) (caught : Transaction Result)
  | randomIndex (count : ℕ) (next : ℕ → Transaction Result)
  | backup (next caught : Transaction Result)

/-- What a session meets outside: the clock, the numbers drawn, whether a copy can be made. -/
structure Surroundings where
  now : ℤ
  draw : ℕ → ℕ
  copied : ℕ → Bool

/-- Load a document on first use, and write through the reference to it. -/
def StorageSession.Loaded.use {Document : Type} (loaded : Option (StorageSession.Loaded Document)) (load : Option Document)
    (change : Document → Document) : Option (Document × StorageSession.Loaded Document) :=
  match loaded, load with
  | some document, _ => some (document.current, { document with current := change document.current })
  | none, some document => some (document, { original := document, current := change document })
  | none, none => none

/-- A state never saved has nothing to copy. -/
def backupMade (disk : Disk) (copied : Bool) : Bool :=
  match disk.conquister with
  | .missing => true
  | _ => copied

namespace Transaction

def run {Result : Type} (world : Surroundings) (disk : Disk) :
    Transaction Result → StorageSession → Option Result × StorageSession
  | finish result, session => (some result, session)
  | raise, session => (none, session)
  | state change next caught, session =>
    match StorageSession.Loaded.use session.state (loadState world.now disk.conquister) change with
    | some (seen, loaded) => run world disk (next seen) { session with state := some loaded }
    | none => run world disk caught session
  | quotes change next caught, session =>
    match StorageSession.Loaded.use session.quotes (loadQuotes disk.quotes) change with
    | some (seen, loaded) => run world disk (next seen) { session with quotes := some loaded }
    | none => run world disk caught session
  | randomIndex count next, session =>
    run world disk (next (NorelecBot.randomIndex (world.draw session.asked) count))
      { session with asked := session.asked + 1 }
  | backup next caught, session =>
    if backupMade disk (world.copied session.asked)
    then run world disk next { session with asked := session.asked + 1 }
    else run world disk caught { session with asked := session.asked + 1 }

end Transaction

/-- How each of the three writes a save may come to would end. -/
structure SavePattern where
  quotes : SaveOutcome
  state : SaveOutcome
  rollback : SaveOutcome
  deriving DecidableEq

/-- A call of `save_json` on one of the paths. -/
inductive Write where
  | quotes
  | conquister
  deriving DecidableEq, Repr

/-- How a save, or a whole transaction, ends: a result or an exception, the files, the writes tried. -/
structure Ended (Result : Type) where
  result : Option Result
  disk : Disk
  writes : List Write

section Save
variable {Result : Type} (pattern : SavePattern) (session : StorageSession) (result : Result)

/-- The quotes go back to what was loaded, once they were saved. -/
def rollback (quotesSaved : Bool) (disk : Disk) : Disk × List Write :=
  match session.quotes with
  | some loaded =>
    if quotesSaved
    then ({ disk with quotes := saveJson pattern.rollback disk.quotes (quotesToJson loaded.original) }, [.quotes])
    else (disk, [])
  | none => (disk, [])

/-- The second half of `save`. -/
def saveState (quotesSaved : Bool) (disk : Disk) (writes : List Write) : Ended Result :=
  match changed session.state with
  | none => ⟨some result, disk, writes⟩
  | some state =>
    match pattern.state with
    | .saved =>
      ⟨some result, { disk with conquister := .document (stateToJson state) }, writes ++ [.conquister]⟩
    -- an exception of `dump` passes by the rollback
    | .threw => ⟨none, disk, writes ++ [.conquister]⟩
    | .refused =>
      ⟨none, (rollback pattern session quotesSaved disk).1,
        writes ++ [.conquister] ++ (rollback pattern session quotesSaved disk).2⟩

def save (disk : Disk) : Ended Result :=
  match changed session.quotes with
  | none => saveState pattern session result false disk []
  | some quotes =>
    match pattern.quotes with
    | .saved => saveState pattern session result true { disk with quotes := .document (quotesToJson quotes) } [.quotes]
    | .refused => ⟨none, disk, [.quotes]⟩
    | .threw => ⟨none, disk, [.quotes]⟩

end Save

/-- Run a function over a session; if it returns, save what it changed. -/
def transaction {Result : Type} (world : Surroundings) (pattern : SavePattern) (function : Transaction Result)
    (disk : Disk) : Ended Result :=
  match function.run world disk {} with
  | (none, _) => ⟨none, disk, []⟩
  | (some result, session) => save pattern session result disk

/-- `quote_add` as a transaction. -/
def quoteAddTransaction (username quote : Str) (cost : ℤ) : Transaction QuoteAddResult :=
  .state id (fun state =>
    .quotes id (fun quotes =>
      match quoteAdd state quotes username quote cost with
      | .error _ => .raise
      | .ok (result, state', quotes') =>
        .quotes (fun _ => quotes') (fun _ => .state (fun _ => state') (fun _ => .finish result) .raise) .raise)
      .raise) .raise

end NorelecBot
