import Mathlib.Data.List.Basic

/-! # One machine following another

Two machines answer the same requests. When each answer is the same and the
states stay in step, whole runs answer the same.
-/

namespace NorelecBot.Lib

abbrev Machine (State Request Answer : Type) : Type := State → Request → Answer × State

namespace Machine
variable {State Abstract Request Answer : Type}

def run (machine : Machine State Request Answer) : State → List Request → List Answer × State
  | state, [] => ([], state)
  | state, request :: requests =>
    ((machine state request).1 :: (run machine (machine state request).2 requests).1,
      (run machine (machine state request).2 requests).2)

@[simp] theorem run_nil (machine : Machine State Request Answer) (state : State) : machine.run state [] = ([], state) := rfl

theorem run_cons (machine : Machine State Request Answer) (state : State) (request : Request) (requests : List Request) :
    machine.run state (request :: requests) =
      ((machine state request).1 :: (machine.run (machine state request).2 requests).1,
        (machine.run (machine state request).2 requests).2) := rfl

def Asked (machine : Machine State Request Answer) (may : State → Request → Prop) : State → List Request → Prop
  | _, [] => True
  | state, request :: requests => may state request ∧ Asked machine may (machine state request).2 requests

/-- To each request that may be asked both answer the same, and stay in step. -/
structure Follows (concrete : Machine State Request Answer) (abstract : Machine Abstract Request Answer)
    (as : State → Abstract → Prop) (may : Abstract → Request → Prop) : Prop where
  answer : ∀ {state other request}, as state other → may other request → (concrete state request).1 = (abstract other request).1
  keeps : ∀ {state other request}, as state other → may other request → as (concrete state request).2 (abstract other request).2

variable {concrete : Machine State Request Answer} {abstract : Machine Abstract Request Answer}
  {as : State → Abstract → Prop} {may : Abstract → Request → Prop}

/-- Then they do so in a whole run. -/
theorem Follows.run (h : Follows concrete abstract as may) {state : State} {other : Abstract} {requests : List Request}
    (has : as state other) (hmay : abstract.Asked may other requests) :
    (concrete.run state requests).1 = (abstract.run other requests).1 ∧
      as (concrete.run state requests).2 (abstract.run other requests).2 := by
  induction requests generalizing state other with
  | nil => exact ⟨rfl, has⟩
  | cons request requests ih =>
    obtain ⟨hanswers, hstates⟩ := ih (h.keeps has hmay.1) hmay.2
    rw [run_cons, run_cons, h.answer has hmay.1, hanswers]
    exact ⟨rfl, hstates⟩

end Machine

end NorelecBot.Lib
