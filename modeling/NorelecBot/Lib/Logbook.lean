import Mathlib.Data.List.Forall2

/-! # A log of numbered entries, and the stage each number is at

Everything that happens to a number is an entry of the log. What may happen next
is a partial step from stage to stage, so the stage of a number says which words
of entries can have led there.
-/

namespace NorelecBot.Lib

variable {μ σ α : Type}

def entriesOf (log : List (ℕ × μ)) (number : ℕ) : List μ :=
  log.filterMap fun entry => if entry.1 = number then some entry.2 else none

@[simp] theorem entriesOf_nil (number : ℕ) : entriesOf ([] : List (ℕ × μ)) number = [] := rfl

@[simp] theorem entriesOf_append (log more : List (ℕ × μ)) (number : ℕ) :
    entriesOf (log ++ more) number = entriesOf log number ++ entriesOf more number := by
  simp [entriesOf]

@[simp] theorem entriesOf_self (number : ℕ) (mark : μ) : entriesOf [(number, mark)] number = [mark] := by
  simp [entriesOf]

theorem entriesOf_of_ne {number other : ℕ} (h : number ≠ other) (mark : μ) : entriesOf [(other, mark)] number = [] := by
  simp [entriesOf, Ne.symm h]

theorem entriesOf_of_forall_ne {log : List (ℕ × μ)} {number : ℕ} (h : ∀ entry ∈ log, entry.1 ≠ number) :
    entriesOf log number = [] := by
  rw [entriesOf, List.filterMap_eq_nil_iff]
  intro entry hentry
  rw [if_neg (h entry hentry)]

/-- One and the same entry for each of some numbers. -/
theorem entriesOf_map {numbers : List ℕ} (hnodup : numbers.Nodup) (mark : μ) (number : ℕ) :
    entriesOf (numbers.map fun other => (other, mark)) number = if number ∈ numbers then [mark] else [] := by
  induction numbers with
  | nil => rfl
  | cons first numbers ih =>
    obtain ⟨hfirst, hrest⟩ := List.nodup_cons.mp hnodup
    have hsplit : entriesOf ((first :: numbers).map fun other => (other, mark)) number =
        entriesOf [(first, mark)] number ++ entriesOf (numbers.map fun other => (other, mark)) number :=
      entriesOf_append [(first, mark)] _ number
    rw [hsplit, ih hrest]
    by_cases hself : number = first
    · subst hself
      simp [hfirst]
    · rw [entriesOf_of_ne hself, List.nil_append]
      simp [hself]

/-- The stage a number is at after what the log says of it. -/
def Staged (next : σ → μ → Option σ) (start : ℕ → σ) (log : List (ℕ × μ)) (number : ℕ) (stage : σ) : Prop :=
  (entriesOf log number).foldlM next (start number) = some stage

namespace Staged
variable {next : σ → μ → Option σ} {start : ℕ → σ} {log : List (ℕ × μ)} {number : ℕ} {stage : σ}

theorem of_nothing (h : entriesOf log number = []) : Staged next start log number (start number) := by
  rw [Staged, h]
  rfl

theorem append (h : Staged next start log number stage) {more : List (ℕ × μ)} {mark : μ} {later : σ}
    (hmore : entriesOf more number = [mark]) (hnext : next stage mark = some later) :
    Staged next start (log ++ more) number later := by
  rw [Staged] at h ⊢
  rw [entriesOf_append, hmore, List.foldlM_append, h]
  change (next stage mark >>= fun reached => some reached) = some later
  rw [hnext]
  rfl

theorem write (h : Staged next start log number stage) {mark : μ} {later : σ} (hnext : next stage mark = some later) :
    Staged next start (log ++ [(number, mark)]) number later :=
  h.append (entriesOf_self number mark) hnext

theorem silent (h : Staged next start log number stage) {more : List (ℕ × μ)} (hmore : entriesOf more number = []) :
    Staged next start (log ++ more) number stage := by
  rw [Staged, entriesOf_append, hmore, List.append_nil]
  exact h

theorem other (h : Staged next start log number stage) {written : ℕ} (hne : number ≠ written) (mark : μ) :
    Staged next start (log ++ [(written, mark)]) number stage :=
  h.silent (entriesOf_of_ne hne mark)

end Staged

/-- The numbers of those that stay, when some of a list go. -/
def numbersOf (keep : α → Bool) (numbers : List ℕ) (those : List α) : List ℕ :=
  ((numbers.zip those).filter fun pair => keep pair.2).map Prod.fst

theorem mem_numbersOf {keep : α → Bool} {numbers : List ℕ} {those : List α} {number : ℕ}
    (h : number ∈ numbersOf keep numbers those) : number ∈ numbers := by
  obtain ⟨pair, hpair, rfl⟩ := List.mem_map.mp h
  exact (List.of_mem_zip (List.mem_filter.mp hpair).1).1

/-- Whatever goes and whatever stays is what its number says. -/
theorem forall₂_numbersOf {keep : α → Bool} {P Q : ℕ → α → Prop} {numbers : List ℕ} {those : List α}
    (h : List.Forall₂ (fun number one => if keep one then P number one else Q number one) numbers those) :
    List.Forall₂ P (numbersOf keep numbers those) (those.filter keep) ∧
      ∀ number ∈ numbers, number ∉ numbersOf keep numbers those → ∃ one, Q number one := by
  induction h with
  | nil => exact ⟨.nil, fun number hnumber => absurd hnumber List.not_mem_nil⟩
  | @cons number one numbers those hone _ ih =>
    obtain ⟨hstay, hgo⟩ := ih
    cases hkeep : keep one with
    | true =>
      rw [if_pos hkeep] at hone
      have hnumbers : numbersOf keep (number :: numbers) (one :: those) = number :: numbersOf keep numbers those := by
        simp [numbersOf, hkeep]
      rw [hnumbers, List.filter_cons_of_pos hkeep]
      refine ⟨.cons hone hstay, fun other hother hgone => ?_⟩
      rw [List.mem_cons, not_or] at hgone
      exact hgo other ((List.mem_cons.mp hother).resolve_left hgone.1) hgone.2
    | false =>
      have hout := Bool.eq_false_iff.mp hkeep
      rw [if_neg hout] at hone
      have hnumbers : numbersOf keep (number :: numbers) (one :: those) = numbersOf keep numbers those := by
        simp [numbersOf, hkeep]
      rw [hnumbers, List.filter_cons_of_neg hout]
      refine ⟨hstay, fun other hother hgone => ?_⟩
      rcases List.mem_cons.mp hother with rfl | hrest
      · exact ⟨one, hone⟩
      · exact hgo other hrest hgone

theorem map_fst_zip_sublist (numbers : List ℕ) (those : List α) :
    ((numbers.zip those).map Prod.fst).Sublist numbers := by
  induction numbers generalizing those with
  | nil => exact List.Sublist.refl []
  | cons number numbers ih =>
    cases those with
    | nil => exact List.nil_sublist _
    | cons one those => exact (ih those).cons_cons number

theorem numbersOf_nodup {keep : α → Bool} {numbers : List ℕ} (h : numbers.Nodup) (those : List α) :
    (numbersOf keep numbers those).Nodup :=
  ((List.filter_sublist.map Prod.fst).trans (map_fst_zip_sublist numbers those)).nodup h

end NorelecBot.Lib
