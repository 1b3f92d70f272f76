import Mathlib.Order.Defs.Unbundled

/-! # Acts

A computation over a state that may stop short. What it did to the state until
then stays done, as with an exception caught far from where it was thrown. Two
readings of an act have rules of their own: what it yields when it ends well, and
how it may move the state.
-/

namespace NorelecBot.Lib

def Act (State Result : Type) : Type := State → Option Result × State

namespace Act
variable {State α β : Type}

protected def pure (result : α) : Act State α := fun state => (some result, state)

/-- Goes on with the result, where there is one. -/
protected def bind (act : Act State α) (next : α → Act State β) : Act State β := fun state =>
  match act state with
  | (some result, state') => next result state'
  | (none, state') => (none, state')

instance : Monad (Act State) where
  pure := Act.pure
  bind := Act.bind

/-- An act that stops short counts as one with this result. -/
def caught (act : Act State α) (otherwise : α) : Act State α := fun state =>
  (some ((act state).1.getD otherwise), (act state).2)

theorem run_caught (act : Act State α) (otherwise : α) (state : State) :
    ∃ result state', act.caught otherwise state = (some result, state') :=
  ⟨_, _, rfl⟩

theorem run_caught_some {act : Act State α} {state state' : State} {result : α} (h : act state = (some result, state'))
    (otherwise : α) : act.caught otherwise state = (some result, state') := by
  rw [caught, h]
  rfl

theorem run_caught_none {act : Act State α} {state state' : State} (h : act state = (none, state')) (otherwise : α) :
    act.caught otherwise state = (some otherwise, state') := by
  rw [caught, h]
  rfl

theorem run_pure (result : α) (state : State) : (pure result : Act State α) state = (some result, state) := rfl

theorem run_bind (act : Act State α) (next : α → Act State β) (state : State) :
    (act >>= next) state = match act state with
      | (some result, state') => next result state'
      | (none, state') => (none, state') := rfl

theorem run_bind_some {act : Act State α} {next : α → Act State β} {state state' : State} {result : α}
    (h : act state = (some result, state')) : (act >>= next) state = next result state' := by
  rw [run_bind, h]

theorem run_bind_none {act : Act State α} {next : α → Act State β} {state state' : State}
    (h : act state = (none, state')) : (act >>= next) state = (none, state') := by
  rw [run_bind, h]

/-- Whatever it ends well with is such a result. -/
def Yields (act : Act State α) (A : α → Prop) : Prop :=
  ∀ state result, (act state).1 = some result → A result

theorem yields_pure {A : α → Prop} {result : α} (h : A result) : Yields (pure result : Act State α) A := by
  intro state other hother
  cases hother
  exact h

theorem yields_bind {act : Act State α} {next : α → Act State β} {A : β → Prop}
    (h : ∀ result, Yields (next result) A) : Yields (act >>= next) A := by
  intro state result hresult
  rw [run_bind] at hresult
  split at hresult
  · exact h _ _ _ hresult
  · cases hresult

/-- Whatever becomes of it, the state has moved in one of these ways. -/
def Within (act : Act State α) (R : State → State → Prop) : Prop := ∀ state, R state (act state).2

theorem within_caught {R : State → State → Prop} {act : Act State α} (h : Within act R) (otherwise : α) :
    Within (act.caught otherwise) R := h

theorem within_ite {R : State → State → Prop} {p : Prop} [Decidable p] {one other : Act State α} (hone : Within one R)
    (hother : Within other R) : Within (if p then one else other) R := by
  split
  · exact hone
  · exact hother

/-- The same, from states of which something is known. -/
def WithinFrom (P : State → Prop) (act : Act State α) (R : State → State → Prop) : Prop :=
  ∀ state, P state → R state (act state).2

theorem withinFrom_of_within {R : State → State → Prop} {act : Act State α} (h : Within act R) (P : State → Prop) :
    WithinFrom P act R :=
  fun state _ => h state

theorem withinFrom_ite {P : State → Prop} {R : State → State → Prop} {p : Prop} [Decidable p] {one other : Act State α}
    (hone : WithinFrom P one R) (hother : WithinFrom P other R) : WithinFrom P (if p then one else other) R := by
  split
  · exact hone
  · exact hother

variable {R : State → State → Prop} [IsPreorder State R]

/-- Two acts in a row: what the first makes known the second starts from. -/
theorem withinFrom_bind {P : State → Prop} {K : α → State → Prop} {act : Act State α} {next : α → Act State β}
    (hact : WithinFrom P act R)
    (hknown : ∀ state result state', P state → act state = (some result, state') → K result state')
    (hnext : ∀ result, WithinFrom (K result) (next result) R) : WithinFrom P (act >>= next) R := by
  intro state hstate
  have hfirst := hact state hstate
  rw [run_bind]
  split
  · rename_i result state' heq
    rw [heq] at hfirst
    exact Trans.trans hfirst (hnext result state' (hknown state result state' hstate heq))
  · rename_i state' heq
    rw [heq] at hfirst
    exact hfirst

theorem within_pure (result : α) : Within (pure result : Act State α) R := fun state => refl state

theorem within_bind {act : Act State α} {next : α → Act State β} (hact : Within act R)
    (hnext : ∀ result, Within (next result) R) : Within (act >>= next) R := by
  intro state
  have hfirst := hact state
  rw [run_bind]
  split
  · rename_i result state' heq
    rw [heq] at hfirst
    exact Trans.trans hfirst (hnext result state')
  · rename_i state' heq
    rw [heq] at hfirst
    exact hfirst

/-- Two acts in a row: only what the first yields comes to the second. -/
theorem within_bind_of_yields {A : α → Prop} {act : Act State α} {next : α → Act State β} (hact : Within act R)
    (hyields : Yields act A) (hnext : ∀ result, A result → Within (next result) R) : Within (act >>= next) R := by
  have hfrom : WithinFrom (fun _ => True) (act >>= next) R := by
    apply withinFrom_bind (K := fun result _ => A result) (withinFrom_of_within hact _)
    · intro state result state' _ hrun
      apply hyields state
      rw [hrun]
    · intro result state hresult
      exact hnext result hresult state
  exact fun state => hfrom state trivial

end Act

end NorelecBot.Lib
