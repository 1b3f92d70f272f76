import Mathlib.Data.List.Basic

/-! # What happened in the course of a run

One operation after another changes a state. An event happened when one of the
operations met the state it found with it.
-/

namespace NorelecBot.Lib

variable {σ ω : Type*} {after : σ → ω → σ} {start : σ} {ops : List ω} {op : ω} {event event' : σ → ω → Prop}

def Happened (after : σ → ω → σ) (start : σ) (ops : List ω) (event : σ → ω → Prop) : Prop :=
  ∃ before op rest, ops = before ++ op :: rest ∧ event (before.foldl after start) op

theorem Happened.before (h : Happened after start ops event) (op : ω) : Happened after start (ops ++ [op]) event := by
  obtain ⟨before, earlier, rest, rfl, hevent⟩ := h
  refine ⟨before, earlier, rest ++ [op], ?_, hevent⟩
  rw [List.append_assoc, List.cons_append]

theorem Happened.now (h : event (ops.foldl after start) op) : Happened after start (ops ++ [op]) event :=
  ⟨ops, op, [], rfl, h⟩

/-- What every operation keeps is kept from then on. -/
theorem keeps_from {P : σ → Prop} (hkeeps : ∀ s op, P s → P (after s op)) (later : List ω) (h : P start) :
    P (later.foldl after start) := by
  induction later generalizing start with
  | nil => exact h
  | cons op later ih => exact ih (hkeeps start op h)

end NorelecBot.Lib
