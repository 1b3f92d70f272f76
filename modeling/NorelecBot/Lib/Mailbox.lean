import Mathlib.Data.List.Basic
import Mathlib.Data.List.Infix

/-! # A mailbox that is never full

What is put in waits to be taken, all of it at once. Past its limit the oldest makes
room for the newest, so what is taken is the last of what was put in since the last
time.
-/

namespace NorelecBot.Lib.Mailbox

inductive Op (α β : Type*) where
  | put (item : α)
  | take (by' : β)
  deriving DecidableEq, Repr

variable {α β : Type*} (limit : ℕ)

def lastOf (items : List α) : List α := items.drop (items.length - limit)

/-- The oldest makes room. -/
def put (waiting : List α) (item : α) : List α :=
  (if limit ≤ waiting.length then waiting.tail else waiting) ++ [item]

def run : List α → List (Op α β) → List (β × List α) × List α
  | waiting, [] => ([], waiting)
  | waiting, .put item :: ops => run (put limit waiting item) ops
  | waiting, .take by' :: ops => ((by', waiting) :: (run [] ops).1, (run [] ops).2)

/-- What was put in before each take, since the one before it, and after the last. -/
def stretches : List α → List (Op α β) → List (β × List α) × List α
  | items, [] => ([], items)
  | items, .put item :: ops => stretches (items ++ [item]) ops
  | items, .take by' :: ops => ((by', items) :: (stretches [] ops).1, (stretches [] ops).2)

def Op.item : Op α β → Option α
  | .put item => some item
  | .take _ => none

def puts (ops : List (Op α β)) : List α := ops.filterMap Op.item

variable {limit}

@[simp] theorem puts_nil : puts ([] : List (Op α β)) = [] := rfl

@[simp] theorem puts_put (item : α) (ops : List (Op α β)) : puts (.put item :: ops) = item :: puts ops := rfl

@[simp] theorem puts_take (by' : β) (ops : List (Op α β)) : puts (.take by' :: ops) = puts ops := rfl

@[simp] theorem lastOf_nil : lastOf limit ([] : List α) = [] := by simp [lastOf]

theorem lastOf_of_le {items : List α} (h : items.length ≤ limit) : lastOf limit items = items := by
  simp [lastOf, Nat.sub_eq_zero_of_le h]

theorem put_of_lt {waiting : List α} (h : waiting.length < limit) (item : α) :
    put limit waiting item = waiting ++ [item] := by
  rw [put, if_neg (by omega)]

theorem put_lastOf (hlimit : 0 < limit) (items : List α) (item : α) :
    put limit (lastOf limit items) item = lastOf limit (items ++ [item]) := by
  by_cases hfull : limit ≤ items.length
  · have hlength : (lastOf limit items).length = limit := by
      rw [lastOf, List.length_drop]
      omega
    have hone : items.length + 1 - limit = items.length - limit + 1 := by omega
    rw [put, if_pos hlength.ge, lastOf, lastOf, List.tail_drop, List.length_append, List.length_singleton, hone,
      List.drop_append_of_le_length (by omega)]
  · rw [lastOf_of_le (by omega : items.length ≤ limit), put, if_neg hfull, lastOf_of_le]
    simp
    omega

/-- What is taken is the last of what was put in since the last time. -/
theorem run_eq (hlimit : 0 < limit) (items : List α) (ops : List (Op α β)) :
    run limit (lastOf limit items) ops =
      ((stretches items ops).1.map (Prod.map id (lastOf limit)), lastOf limit (stretches items ops).2) := by
  induction ops generalizing items with
  | nil => rfl
  | cons op ops ih =>
    cases op with
    | put item => rw [run, put_lastOf hlimit, ih, stretches]
    | take by' =>
      have hempty := ih []
      rw [lastOf_nil] at hempty
      simp [run, stretches, hempty]

end NorelecBot.Lib.Mailbox
