import CilRestore.Fault

/-!
# Actions

An action works on a state, prints lines and may fail. A failure keeps the state it reached and
the lines it printed: an operation that breaks off half-way leaves its first half behind, and
callers that go on after it see that. `Action.attempt` turns a failure into a value, and
`Action.within` runs an action on a part of a larger state.
-/

namespace CilRestore

/-- What an action leaves behind. -/
structure Outcome (σ α : Type) where
  /-- The answer, or what went wrong. -/
  result : Except Fault α
  /-- The state reached, also by a failure. -/
  state : σ
  /-- The lines printed on the way, oldest first. -/
  lines : List String

/-- A step on a state that prints lines and may fail. -/
def Action (σ α : Type) := σ → Outcome σ α

namespace Action

variable {σ τ α β : Type}

/-- Answer without doing anything. -/
protected def pure (a : α) : Action σ α := fun s => ⟨.ok a, s, []⟩

/-- Go on with the answer of a first action, unless it failed. -/
protected def bind (x : Action σ α) (f : α → Action σ β) : Action σ β := fun s =>
  let first := x s
  match first.result with
  | .error e => ⟨.error e, first.state, first.lines⟩
  | .ok a =>
    let second := f a first.state
    ⟨second.result, second.state, first.lines ++ second.lines⟩

instance : Monad (Action σ) where
  pure := Action.pure
  bind := Action.bind

/-- The state as it is. -/
def read : Action σ σ := fun s => ⟨.ok s, s, []⟩

/-- Change the state. -/
def update (f : σ → σ) : Action σ Unit := fun s => ⟨.ok (), f s, []⟩

/-- Break off. -/
def fail (e : Fault) : Action σ α := fun s => ⟨.error e, s, []⟩

/-- Print a line. -/
def say (line : String) : Action σ Unit := fun s => ⟨.ok (), s, [line]⟩

/-- Print lines. -/
def sayAll (lines : List String) : Action σ Unit := fun s => ⟨.ok (), s, lines⟩

/-- The answer of a computation that touches no state. -/
def ofExcept (x : Except Fault α) : Action σ α := fun s => ⟨x, s, []⟩

/-- Run an action and answer how it went. -/
def attempt (x : Action σ α) : Action σ (Except Fault α) := fun s =>
  let done := x s
  ⟨.ok done.result, done.state, done.lines⟩

/-- Run an action on a part of the state. -/
def within (get : τ → σ) (put : σ → τ → τ) (x : Action σ α) : Action τ α := fun t =>
  let done := x (get t)
  ⟨done.result, put done.state t, done.lines⟩

/-- Run an action on a state of its own; the answer is how it went and the state it reached. -/
def onOwn (s : τ) (x : Action τ α) : Action σ (Except Fault α × τ) := fun t =>
  let done := x s
  ⟨.ok (done.result, done.state), t, done.lines⟩

/-- Take steps one after the other, each with how it went; a failing one leaves the others to be
taken. -/
def outcomes (step : β → Action σ α) : List β → σ → List (β × Outcome σ α)
  | [], _ => []
  | b :: rest, s =>
    let done := step b s
    (b, done) :: outcomes step rest done.state

/-- Each step has an outcome. -/
@[simp] theorem length_outcomes (step : β → Action σ α) (steps : List β) (s : σ) :
    (outcomes step steps s).length = steps.length := by
  induction steps generalizing s with
  | nil => rfl
  | cons b rest ih => simp [outcomes, ih]

/-- Run an action and a last one after it, whatever becomes of the first. -/
def andFinally (x : Action σ α) (last : Action σ Unit) : Action σ α := do
  let result ← attempt x
  last
  ofExcept result

end Action

end CilRestore
