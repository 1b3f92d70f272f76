import Mathlib.Data.List.TakeWhile
import Mathlib.Data.List.Induction
import Mathlib.Algebra.Order.Ring.Int

/-! # Counting since the last time

An entry of a log counts for a key, clears what was counted for it, or does
neither. A counter that goes up and back to nothing along with the log shows how
many entries counted since the last one that cleared it.
-/

namespace NorelecBot.Lib

inductive Effect where
  | counts
  | clears
  | neither
  deriving DecidableEq, Repr

variable {ε κ : Type*} (effect : ε → κ → Effect)

def streak (key : κ) (log : List ε) : ℕ :=
  (log.reverse.takeWhile fun entry => effect entry key ≠ .clears).countP fun entry => effect entry key = .counts

@[simp] theorem streak_nil (key : κ) : streak effect key [] = 0 := rfl

theorem streak_concat (key : κ) (log : List ε) (entry : ε) :
    streak effect key (log ++ [entry]) =
      match effect entry key with
      | .counts => streak effect key log + 1
      | .clears => 0
      | .neither => streak effect key log := by
  rw [streak, List.reverse_append, List.reverse_singleton, List.singleton_append, List.takeWhile_cons]
  cases heffect : effect entry key <;> simp [streak, heffect]

/-- With nothing that clears it, every entry that counts adds to what was counted before. -/
theorem streak_append {key : κ} (log : List ε) {more : List ε} (h : ∀ entry ∈ more, effect entry key ≠ .clears) :
    streak effect key (log ++ more) =
      streak effect key log + more.countP fun entry => effect entry key = .counts := by
  induction more using List.reverseRecOn with
  | nil => simp
  | append_singleton more entry ih =>
    have hmore := ih fun other hother => h other (List.mem_append_left _ hother)
    have hentry := h entry (List.mem_append_right _ List.mem_cons_self)
    rw [← List.append_assoc, streak_concat, hmore, List.countP_append, List.countP_singleton]
    cases heffect : effect entry key with
    | counts => simp [add_assoc]
    | clears => exact absurd heffect hentry
    | neither => simp

def tick (count : κ → ℤ) (entry : ε) (key : κ) : ℤ :=
  match effect entry key with
  | .counts => count key + 1
  | .clears => 0
  | .neither => count key

theorem foldl_tick {count : κ → ℤ} (h : ∀ key, count key = 0) (log : List ε) (key : κ) :
    log.foldl (tick effect) count key = streak effect key log := by
  induction log using List.reverseRecOn with
  | nil => exact h key
  | append_singleton log entry ih =>
    rw [List.foldl_append, List.foldl_cons, List.foldl_nil, streak_concat, tick]
    cases effect entry key with
    | counts => simp [ih]
    | clears => rfl
    | neither => exact ih

/-- A log whose entries are all admitted by what was counted when they were made. -/
inductive Ticks (admits : (κ → ℤ) → ε → Prop) : (κ → ℤ) → List ε → (κ → ℤ) → Prop
  | nil (count : κ → ℤ) : Ticks admits count [] count
  | cons {count count' : κ → ℤ} {entry : ε} {log : List ε} (admitted : admits count entry)
      (rest : Ticks admits (tick effect count entry) log count') : Ticks admits count (entry :: log) count'

namespace Ticks
variable {effect} {admits : (κ → ℤ) → ε → Prop} {count count' count'' : κ → ℤ} {log more : List ε}

theorem append (h : Ticks effect admits count log count') (hmore : Ticks effect admits count' more count'') :
    Ticks effect admits count (log ++ more) count'' := by
  induction h with
  | nil => exact hmore
  | cons admitted _ ih => exact .cons admitted (ih hmore)

theorem single {entry : ε} (h : admits count entry) (hcount : count' = tick effect count entry) :
    Ticks effect admits count [entry] count' := by
  rw [hcount]
  exact .cons h (.nil _)

theorem eq_foldl (h : Ticks effect admits count log count') : count' = log.foldl (tick effect) count := by
  induction h with
  | nil => rfl
  | cons _ _ ih => exact ih

theorem admitted_at {before after : List ε} {entry : ε}
    (h : Ticks effect admits count (before ++ entry :: after) count') :
    admits (before.foldl (tick effect) count) entry := by
  induction before generalizing count with
  | nil =>
    cases h with
    | cons admitted _ => exact admitted
  | cons first before ih =>
    cases h with
    | cons _ rest => exact ih rest

/-- The first entries are admitted whatever comes after them. -/
theorem before (h : Ticks effect admits count (log ++ more) count'') :
    Ticks effect admits count log (log.foldl (tick effect) count) := by
  induction log generalizing count with
  | nil => exact .nil count
  | cons entry log ih =>
    cases h with
    | cons admitted rest => exact .cons admitted (ih rest)

/-- What every entry that is admitted keeps is kept by the whole log. -/
theorem keeps {P : (κ → ℤ) → Prop} (hkeeps : ∀ count entry, admits count entry → P count → P (tick effect count entry))
    (h : Ticks effect admits count log count') (hstart : P count) : P count' := by
  induction h with
  | nil => exact hstart
  | cons admitted _ ih => exact ih (hkeeps _ _ admitted hstart)

end Ticks

end NorelecBot.Lib
