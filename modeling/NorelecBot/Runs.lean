import NorelecBot.CleanEmoji
import NorelecBot.OperationPassages

/-! # Whole runs

Operation after operation, from whatever is on file. One that fails leaves the
files as they were.
-/

namespace NorelecBot
open Lib

variable [SlotCodec] [Clock]

/-- The files after an operation, whether or not it went through. -/
def Files.after (files : Files) (op : Op) : Files :=
  match step files op with
  | .ok (_, files') => files'
  | .error _ => files

def Files.run (files : Files) (ops : List Op) : Files := ops.foldl Files.after files

theorem Files.after_eq {files files' : Files} {op : Op} {reply : Reply} (h : step files op = .ok (reply, files')) :
    files.after op = files' := by
  rw [Files.after, h]

/-- What is answered is answered along with the files that come after. -/
theorem Files.step_eq {files : Files} {op : Op} {reply : Reply} (h : (step files op).toOption.map Prod.fst = some reply) :
    step files op = .ok (reply, files.after op) := by
  rw [after]
  cases hop : step files op with
  | error failure =>
    rw [hop] at h
    cases h
  | ok result =>
    rw [hop] at h
    cases h
    rfl

omit [SlotCodec] [Clock] in
theorem quoteAdd_quotes {s t : ConquisterState} {quotes quotes' : Quotes} {username quote : Str} {cost : ℤ}
    {result : QuoteAddResult} (h : quoteAdd s quotes username quote cost = .ok (result, t, quotes')) :
    quotes' = quotes ∨ quotes' = quotes ++ [quote] := by
  simp only [quoteAdd] at h
  split_ifs at h
  · cases h
    exact .inl rfl
  · cases h
    exact .inl rfl
  · cases h
    exact .inr rfl

omit [SlotCodec] [Clock] in
theorem quoteDelete_sublist (s : ConquisterState) (quotes : Quotes) (selector : Str) :
    (quoteDelete s quotes selector).2.2.Sublist quotes := by
  rw [quoteDelete]
  split
  · exact List.Sublist.refl quotes
  · exact List.eraseIdx_sublist quotes _

/-- What becomes of the quotes. -/
theorem step_quotes {files files' : Files} {op : Op} {reply : Reply} (h : step files op = .ok (reply, files')) :
    files'.quotes = files.quotes ∨ (∃ username quote cost, op = .quoteAdd username quote cost ∧
      files'.quotes = files.quotes ++ [quote]) ∨
      ∃ selector, op = .quoteDelete selector ∧ files'.quotes.Sublist files.quotes := by
  cases op with
  | quoteAdd username quote cost =>
    rw [step] at h
    cases hadd : quoteAdd files.state files.quotes username quote cost with
    | error failure => simp [hadd] at h
    | ok result =>
      obtain ⟨added, state, quotes⟩ := result
      simp only [hadd, Except.ok.injEq, Prod.mk.injEq] at h
      rw [← h.2]
      rcases quoteAdd_quotes hadd with hsame | hmore
      · exact .inl hsame
      · exact .inr (.inl ⟨username, quote, cost, rfl, hmore⟩)
  | quoteDelete selector =>
    rw [step, Except.ok.injEq, Prod.mk.injEq] at h
    rw [← h.2]
    exact .inr (.inr ⟨selector, rfl, quoteDelete_sublist files.state files.quotes selector⟩)
  | invite newcomer inviter platform now =>
    rw [step, Except.ok.injEq, Prod.mk.injEq] at h
    rw [← h.2]
    exact .inl rfl
  | claim | raidStart | raidDue | buy | move | burn | take | store | link =>
    obtain ⟨_, -, -, hquotes⟩ := Files.only_eq_ok h
    exact .inl hquotes
  | _ =>
    cases h
    exact .inl rfl

/-- What every edit of some inputs keeps is kept by a whole run of operations with such inputs. -/
theorem Files.run_keeps {I : ConquisterState → Prop} {inputs : List Str → Prop}
    (hstep : ∀ {emoji : List Str} {s t : ConquisterState} {f : Receipt}, inputs emoji → Passage emoji s f t → I s → I t)
    {files : Files} {ops : List Op} (hinputs : ∀ op ∈ ops, inputs op.inputs) (hfiles : I files.state) :
    I (files.run ops).state := by
  induction ops generalizing files with
  | nil => exact hfiles
  | cons op ops ih =>
    refine ih (fun other hother => hinputs other (List.mem_cons_of_mem _ hother)) ?_
    cases hop : step files op with
    | error failure =>
      rw [Files.after, hop]
      exact hfiles
    | ok result =>
      obtain ⟨reply, files'⟩ := result
      obtain ⟨f, hpassage, -, -⟩ := step_passage hop
      rw [Files.after_eq hop]
      exact hstep (hinputs op List.mem_cons_self) hpassage hfiles

end NorelecBot
