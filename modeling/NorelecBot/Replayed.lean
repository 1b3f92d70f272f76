import NorelecBot.OnFile

/-! # The game on file

Each operation is a transaction of its own. What the files hold after any of them, and
whatever was answered, is a run of the game: those that threw had never been asked for.
-/

namespace NorelecBot
open Lib

/-- A function that makes copies before it goes on, and throws where one cannot be made. -/
def Transaction.copying {Result : Type} (function : Transaction Result) : ℕ → Transaction Result
  | 0 => function
  | copies + 1 => .backup (function.copying copies) .raise

/-- `quote_delete` as a transaction: the state is only asked for where a quote goes. -/
def quoteDeleteTransaction (selector : Str) : Transaction (Option Str) :=
  .quotes id (fun quotes =>
    match selectedQuote quotes selector with
    | none => .finish none
    | some index =>
      .quotes (fun quotes => quotes.eraseIdx index) (fun _ =>
        .state (fun state => forgetAuthor state (quotes.getD index []))
          (fun _ => .finish (some (quotes.getD index []))) .raise) .raise) .raise

def Op.quoting : Op → Bool
  | .quoteAdd .. | .quoteDelete .. => true
  | _ => false

section
variable [SlotCodec] [Clock]

/-- The transaction an operation is; resets and the sorting out make copies on the way. -/
def Op.transaction (copies : ℕ) : Op → Transaction Reply
  | .quoteAdd username quote cost => (quoteAddTransaction username quote cost).map .quoteAdd
  | .quoteDelete selector => (quoteDeleteTransaction selector).map .quoteDelete
  | op =>
    .state id (fun state =>
      match step ⟨state, []⟩ op with
      | .error _ => .raise
      | .ok (reply, files) =>
        Transaction.copying (.state (fun _ => files.state) (fun _ => .finish reply) .raise) copies) .raise

omit [SlotCodec] [Clock] in
/-- Copies change nothing, or make it throw. -/
theorem Transaction.meaning_copying {Result : Type} {function : Transaction Result}
    {holds : Option Result × Files → Prop} {world : Surroundings} {files : Files}
    (h : ∀ asked, holds (function.meaning world files asked)) (hthrows : holds (none, files)) (copies asked : ℕ) :
    holds ((function.copying copies).meaning world files asked) := by
  induction copies generalizing asked with
  | zero => exact h asked
  | succ copies ih =>
    rw [copying, meaning]
    split
    · exact ih _
    · exact hthrows

/-- An operation without quotes does the same whatever the quotes are. -/
theorem step_quoteless {op : Op} (h : op.quoting = false) (files : Files) :
    step files op = (step ⟨files.state, []⟩ op).map fun result => (result.1, { result.2 with quotes := files.quotes }) := by
  cases op with
  | quoteAdd | quoteDelete => cases h
  | claim userId username now rules draws =>
    simp only [step, Files.only]
    cases conquisterClaim files.state userId username now rules draws <;> rfl
  | raidStart userId username now rules errand draws =>
    simp only [step, Files.only]
    cases raidStart files.state userId username now rules errand draws <;> rfl
  | raidDue now rules draws =>
    simp only [step, Files.only]
    cases raidDue files.state now rules draws <;> rfl
  | buy username emoji position cost limit now inflation =>
    simp only [step, Files.only]
    cases furnitureBuy files.state username emoji position cost limit now inflation <;> rfl
  | move username source target limit now =>
    simp only [step, Files.only]
    cases furnitureMove files.state username source target limit now <;> rfl
  | burn player emoji now rules destroy draws =>
    simp only [step, Files.only]
    cases furnitureBurn files.state player emoji now rules destroy draws <;> rfl
  | take player emoji swap now =>
    simp only [step, Files.only]
    cases gearTake files.state player emoji swap now <;> rfl
  | store player emoji limit now =>
    simp only [step, Files.only]
    cases gearStore files.state player emoji limit now <;> rfl
  | link userId username otherName accountName =>
    simp only [step, Files.only]
    cases playerLink files.state userId username otherName accountName <;> rfl
  | palleBurn | sortOut | seen | handOut | guide | reward | debug | invite => rfl

theorem transaction_quoteless {op : Op} (h : op.quoting = false) (copies : ℕ) :
    op.transaction copies = .state id (fun state =>
      match step ⟨state, []⟩ op with
      | .error _ => .raise
      | .ok (reply, files) =>
        Transaction.copying (.state (fun _ => files.state) (fun _ => .finish reply) .raise) copies) .raise := by
  cases op with
  | quoteAdd | quoteDelete => cases h
  | _ => rfl

omit [SlotCodec] [Clock] in
theorem quoteAdd_meaning (username quote : Str) (cost : ℤ) (world : Surroundings) (files : Files) (asked : ℕ) :
    (quoteAddTransaction username quote cost).meaning world files asked =
      match quoteAdd files.state files.quotes username quote cost with
      | .error _ => (none, files)
      | .ok (result, state, quotes) => (some result, ⟨state, quotes⟩) := by
  simp only [quoteAddTransaction, Transaction.meaning, id_eq]
  cases quoteAdd files.state files.quotes username quote cost <;> rfl

omit [SlotCodec] [Clock] in
theorem quoteDelete_meaning (selector : Str) (world : Surroundings) (files : Files) (asked : ℕ) :
    (quoteDeleteTransaction selector).meaning world files asked =
      (some (quoteDelete files.state files.quotes selector).1,
        ⟨(quoteDelete files.state files.quotes selector).2.1, (quoteDelete files.state files.quotes selector).2.2⟩) := by
  simp only [quoteDeleteTransaction, Transaction.meaning, id_eq, quoteDelete]
  cases selectedQuote files.quotes selector <;> rfl

/-- What a transaction answers and leaves is what its operation does. -/
theorem transaction_meaning {op : Op} {copies : ℕ} {world : Surroundings} {files meant : Files} {reply : Reply}
    (h : (op.transaction copies).meaning world files 0 = (some reply, meant)) : step files op = .ok (reply, meant) := by
  cases hquoting : op.quoting with
  | true =>
    cases op with
    | quoteAdd username quote cost =>
      rw [Op.transaction, Transaction.meaning_map, quoteAdd_meaning] at h
      rw [step]
      cases hadd : quoteAdd files.state files.quotes username quote cost with
      | error failure => simp [hadd] at h
      | ok result =>
        simp only [hadd, Option.map_some, Prod.mk.injEq, Option.some.injEq] at h
        obtain ⟨rfl, rfl⟩ := h
        rfl
    | quoteDelete selector =>
      rw [Op.transaction, Transaction.meaning_map, quoteDelete_meaning] at h
      cases h
      rfl
    | _ => cases hquoting
  | false =>
    rw [transaction_quoteless hquoting, Transaction.meaning] at h
    rw [step_quoteless hquoting]
    cases hstep : step ⟨files.state, []⟩ op with
    | error failure =>
      rw [id_eq, hstep] at h
      cases h
    | ok result =>
      obtain ⟨answer, after⟩ := result
      rw [id_eq, hstep] at h
      have hcopied := @Transaction.meaning_copying _ (.state (fun _ => after.state) (fun _ => .finish answer) .raise)
        (fun ended => ∀ reply meant, ended = (some reply, meant) →
          reply = answer ∧ meant = { files with state := after.state }) world files
        (fun asked reply meant hended => by cases hended; exact ⟨rfl, rfl⟩)
        (fun reply meant hended => by cases hended) copies 0
      obtain ⟨rfl, rfl⟩ := hcopied reply meant h
      rfl

/-- Operations that went through one after another, with what they answered. -/
inductive Replays : Files → List (Op × Reply) → Files → Prop where
  | nil (files : Files) : Replays files [] files
  | cons {files next final : Files} {op : Op} {reply : Reply} {rest : List (Op × Reply)}
      (hstep : step files op = .ok (reply, next)) (hrest : Replays next rest final) : Replays files ((op, reply) :: rest) final

/-- A history is a run of the game. -/
theorem Replays.run_eq {files final : Files} {history : List (Op × Reply)} (h : Replays files history final) :
    files.run (history.map Prod.fst) = final := by
  induction h with
  | nil files => rfl
  | cons hstep hrest ih =>
    rw [List.map_cons, Files.run, List.foldl_cons, Files.after_eq hstep]
    exact ih

/-- What the game on file meets: a start of the bot, or an operation, the copies it makes and how its writes would end. -/
inductive Played where
  | start (now : ℤ) (outcome : SaveOutcome)
  | operation (op : Op) (copies : ℕ) (world : Surroundings) (pattern : SavePattern)

def Played.request : Played → StorageRequest Reply
  | .start now outcome => .start now outcome
  | .operation op copies world pattern => .transaction world pattern (op.transaction copies)

def historyOf : List Played → List (StorageAnswer Reply) → List (Op × Reply)
  | .operation op .. :: played, .ended (some reply) :: answers => (op, reply) :: historyOf played answers
  | _ :: played, _ :: answers => historyOf played answers
  | _, _ => []

/-- No save of quotes and a state tears them apart, and no quote is without a text. -/
def Played.Sound : Played → Prop
  | .start .. => True
  | .operation op _ _ pattern =>
    (op.quoting = true → pattern.quotes = .saved → pattern.state ≠ .saved → pattern.state = .refused ∧ pattern.rollback = .saved) ∧
      ∀ username quote cost, op = .quoteAdd username quote cost → quote ≠ []

/-- Every slot of what it would leave fits a size. -/
def StorageRequest.Fits (archive : Archive) : StorageRequest Reply → Prop
  | .start .. => True
  | .transaction world _ function =>
    ∀ result meant, function.meaning (archive.world world) archive.files 0 = (some result, meant) →
      ∀ holder, meant.state.current = some holder → SlotsFit holder

omit [SlotCodec] [Clock] in
/-- A commit that does not tear leaves everything or nothing. -/
theorem commit_whole {archive : Archive} {pattern : SavePattern} {meant : Files}
    (h : meant.quotes = archive.files.quotes ∨
      (pattern.quotes = .saved → pattern.state ≠ .saved → pattern.state = .refused ∧ pattern.rollback = .saved)) :
    (archive.commit pattern meant).1 = true ∧ (archive.commit pattern meant).2.files = meant ∨
      archive.commit pattern meant = (false, archive) := by
  by_cases hfirst : meant.quotes ≠ archive.files.quotes ∧ pattern.quotes ≠ .saved
  · right
    rw [Archive.commit, if_pos hfirst]
  by_cases hsame : meant.state = archive.files.state
  · left
    simp [Archive.commit, hfirst, hsame]
  cases hpattern : pattern.state with
  | saved =>
    left
    simp [Archive.commit, hfirst, hsame, hpattern]
  | threw =>
    right
    have hquotes : meant.quotes = archive.files.quotes := by
      rcases h with hquotes | huntorn
      · exact hquotes
      · by_contra hchanged
        have hsaved : pattern.quotes = .saved := by simpa [hchanged] using hfirst
        simpa [hpattern] using (huntorn hsaved (by simp [hpattern])).1
    simp [Archive.commit, hsame, hpattern, hquotes]
  | refused =>
    right
    by_cases hquotes : meant.quotes = archive.files.quotes
    · simp [Archive.commit, hsame, hpattern, hquotes]
    · have hsaved : pattern.quotes = .saved := by simpa [hquotes] using hfirst
      have hback : pattern.rollback = .saved := by
        rcases h with hsame' | huntorn
        · exact absurd hsame' hquotes
        · exact (huntorn hsaved (by simp [hpattern])).2
      simp [Archive.commit, hsame, hpattern, hsaved, hback]

/-- An operation without quotes leaves them. -/
theorem step_quotes_of_quoteless {op : Op} (hop : op.quoting = false) {files files' : Files} {reply : Reply}
    (h : step files op = .ok (reply, files')) : files'.quotes = files.quotes := by
  rw [step_quoteless hop] at h
  cases hstep : step ⟨files.state, []⟩ op with
  | error failure =>
    rw [hstep] at h
    cases h
  | ok result =>
    rw [hstep] at h
    cases h
    rfl

/-- One operation on file: it went through, or it was never asked for. -/
theorem operation_cases {archive : Archive} {op : Op} {copies : ℕ} {world : Surroundings} {pattern : SavePattern}
    (hsound : (Played.operation op copies world pattern).Sound) :
    (∃ reply, (archive.transaction world pattern (op.transaction copies)).1 = some reply ∧
        step archive.files op = .ok (reply, (archive.transaction world pattern (op.transaction copies)).2.files)) ∨
      archive.transaction world pattern (op.transaction copies) = (none, archive) := by
  cases hmeaning : (op.transaction copies).meaning (archive.world world) archive.files 0 with
  | mk result meant =>
    cases result with
    | none =>
      right
      simp only [Archive.transaction, hmeaning]
    | some reply =>
      have hstep := transaction_meaning hmeaning
      have hwhole : meant.quotes = archive.files.quotes ∨
          (pattern.quotes = .saved → pattern.state ≠ .saved → pattern.state = .refused ∧ pattern.rollback = .saved) := by
        cases hquoting : op.quoting with
        | false => exact .inl (step_quotes_of_quoteless hquoting hstep)
        | true => exact .inr (hsound.1 hquoting)
      rcases commit_whole hwhole with ⟨hwent, hfiles⟩ | hnothing
      · left
        refine ⟨reply, ?_⟩
        simp only [Archive.transaction, hmeaning, hwent, if_true, hfiles]
        exact ⟨trivial, hstep⟩
      · right
        simp [Archive.transaction, hmeaning, hnothing]

theorem operation_worded {op : Op} (hworded : ∀ username quote cost, op = .quoteAdd username quote cost → quote ≠ [])
    {files files' : Files} {reply : Reply} (h : step files op = .ok (reply, files')) (hquotes : [] ∉ files.quotes) :
    [] ∉ files'.quotes := by
  rcases step_quotes h with hsame | ⟨username, quote, cost, hop, hmore⟩ | ⟨selector, -, hfewer⟩
  · rwa [hsame]
  · rw [hmore, List.mem_append, List.mem_singleton, not_or]
    exact ⟨hquotes, Ne.symm (hworded username quote cost hop)⟩
  · exact fun hempty => hquotes (hfewer.subset hempty)

/-- Kept at hand, the documents go through a run of the game. -/
theorem atHand_replays {archive : Archive} {played : List Played} (hsound : ∀ one ∈ played, one.Sound)
    (hquotes : [] ∉ archive.files.quotes) (hfits : Storage.atHand.Asked StorageRequest.Fits archive (played.map Played.request)) :
    Storage.atHand.Asked StorageRequest.Writes archive (played.map Played.request) ∧
      Replays archive.files (historyOf played (Storage.atHand.run archive (played.map Played.request)).1)
        (Storage.atHand.run archive (played.map Played.request)).2.files := by
  induction played generalizing archive with
  | nil => exact ⟨trivial, .nil _⟩
  | cons one played ih =>
    obtain ⟨hone, hplayed⟩ := List.forall_mem_cons.mp hsound
    obtain ⟨hfit, hrest⟩ := hfits
    cases one with
    | start now outcome =>
      obtain ⟨hwrites, hreplays⟩ := @ih archive hplayed hquotes hrest
      exact ⟨⟨trivial, hwrites⟩, hreplays⟩
    | operation op copies world pattern =>
      have hwrite : StorageRequest.Writes archive (Played.operation op copies world pattern).request := by
        intro result meant hmeaning
        exact ⟨hfit result meant hmeaning, operation_worded hone.2 (transaction_meaning hmeaning) hquotes⟩
      rcases @operation_cases _ _ archive op copies world pattern hone with ⟨reply, hreply, hstep⟩ | hnothing
      · obtain ⟨hwrites, hreplays⟩ := @ih (archive.transaction world pattern (op.transaction copies)).2 hplayed
          (operation_worded hone.2 hstep hquotes) hrest
        refine ⟨⟨hwrite, hwrites⟩, ?_⟩
        rw [List.map_cons, Machine.run_cons, Played.request, Storage.atHand, hreply, historyOf]
        exact .cons hstep hreplays
      · have hstays : (archive.transaction world pattern (op.transaction copies)).2 = archive := by rw [hnothing]
        change Storage.atHand.Asked _ (archive.transaction world pattern (op.transaction copies)).2 _ at hrest
        rw [hstays] at hrest
        obtain ⟨hwrites, hreplays⟩ := @ih archive hplayed hquotes hrest
        constructor
        · refine ⟨hwrite, ?_⟩
          change Storage.atHand.Asked _ (archive.transaction world pattern (op.transaction copies)).2 _
          rwa [hstays]
        · rw [List.map_cons, Machine.run_cons, Played.request, Storage.atHand, hnothing]
          exact hreplays

/-- From a start that goes through on, whichever operations are asked for, whichever of their writes and copies fail, and
however often the bot is started again: what was answered is a history of the game from what was read, and the
two files hold what that history left. -/
theorem game_on_file {now : ℤ} {outcome : SaveOutcome} {disk disk' : Disk} (h : openStorage now outcome disk = (true, disk')) :
    ∃ archive, loadState now disk.conquister = some archive.files.state ∧ loadQuotes disk.quotes = some archive.files.quotes ∧
      ∀ played : List Played, (∀ one ∈ played, one.Sound) →
        Storage.atHand.Asked StorageRequest.Fits archive (played.map Played.request) →
        let history := historyOf played (Storage.onDisk.run disk' (played.map Played.request)).1
        let left := (Storage.onDisk.run disk' (played.map Played.request)).2
        let final := archive.files.run (history.map Prod.fst)
        Replays archive.files history final ∧ (∀ later, loadState later left.conquister = some final.state) ∧
          loadQuotes left.quotes = some final.quotes := by
  obtain ⟨archive, hstate, hquotes, hholds⟩ := openStorage_holds h
  refine ⟨archive, hstate, hquotes, fun played hsound hfits => ?_⟩
  obtain ⟨hwrites, hreplays⟩ := atHand_replays hsound hholds.writable.quotes hfits
  obtain ⟨hanswers, hfinal⟩ := onDisk_follows.run hholds hwrites
  intro history left final
  have hrun : final = (Storage.atHand.run archive (played.map Played.request)).2.files := by
    rw [← hreplays.run_eq, ← hanswers]
  rw [hrun]
  refine ⟨?_, hfinal.state, hfinal.quotes⟩
  rwa [← hanswers] at hreplays

end

/-- A quote added, the bot started again, and the quote deleted. -/
def quoteAndBack : List Played :=
  [.operation (.quoteAdd (utf8 "ada") (utf8 "ciao") 0) 0 ⟨0, fun _ => 0, fun _ => true⟩ ⟨.saved, .saved, .saved⟩,
    .start 5 .saved,
    .operation (.quoteDelete (utf8 "1")) 0 ⟨6, fun _ => 0, fun _ => true⟩ ⟨.saved, .saved, .saved⟩]

theorem game_on_file_back :
    loadQuotes (Storage.onDisk.run ⟨.missing, .missing⟩ (quoteAndBack.map (@Played.request _ utc))).2.quotes = some [] := by
  obtain ⟨⟨⟨state, quotes⟩, saved⟩, hstate, hquotes, hplayed⟩ :=
    @game_on_file _ utc 0 .saved ⟨.missing, .missing⟩ ⟨.missing, .missing⟩ rfl
  cases hstate
  cases hquotes
  have hciao : utf8 "ciao" ≠ [] := by decide +kernel
  have hsound : ∀ one ∈ quoteAndBack, one.Sound := by simp [quoteAndBack, Played.Sound, hciao]
  have hfits : Storage.atHand.Asked StorageRequest.Fits ⟨⟨{}, []⟩, saved⟩ (quoteAndBack.map (@Played.request _ utc)) := by
    refine ⟨?_, trivial, ?_, trivial⟩
    · intro result meant hmeaning holder hholder
      cases hmeaning
      cases hholder
    · intro result meant hmeaning holder hholder
      cases hmeaning
      cases hholder
  exact (hplayed quoteAndBack hsound hfits).2.2.trans rfl

end NorelecBot
