import MiniC.State

/-!
# Observers

An observer sees every event together with the state and says whether to go on.
It has a memory of its own and no other way to act on the evaluation.
-/

namespace MiniC

/-- What an observer decides. -/
inductive Action where
  | proceed
  | halt
deriving DecidableEq, Repr

/-- An observer with a memory. -/
structure Observer (σ : Type) where
  onStep : σ → Event → State → σ × Action

/-- The observer that halts where a predicate holds, and remembers nothing. -/
def Observer.haltingAt {σ : Type} (p : Event → State → Bool) : Observer σ :=
  ⟨fun w e s => (w, if p e s then .halt else .proceed)⟩

/-- The observer that never halts and remembers nothing. -/
def Observer.silent {σ : Type} : Observer σ := haltingAt fun _ _ => false

/-- The observer that never halts and keeps what a function makes
    of each event, the last one first. -/
def Observer.recording {α : Type} (view : Event → State → α) : Observer (List α) :=
  ⟨fun seen e s => (view e s :: seen, .proceed)⟩

end MiniC
