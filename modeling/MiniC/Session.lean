import MiniC.Eval.Program

/-!
# Sessions

A session runs one program after the other on the same state, under the same
settings, and under an observer that can be exchanged in between.
-/

namespace MiniC

/-- A session. -/
structure Session (σ : Type) where
  settings : Settings
  observer : Option (Observer σ) := none
  machine : Machine σ

namespace Session
variable {σ : Type}

/-- A fresh session. -/
def start (settings : Settings) (watch : σ) : Session σ where
  settings
  machine := ⟨.seeded, watch⟩

/-- The state of a session. -/
def state (s : Session σ) : State := s.machine.state

/-- Changes the state of a session. -/
def mapState (s : Session σ) (f : State → State) : Session σ :=
  { s with machine := { s.machine with state := f s.machine.state } }

/-- What its evaluations take for granted. -/
def context (s : Session σ) : Context σ := ⟨s.settings, s.observer.getD .silent⟩

/-- Runs a program. -/
def execute (s : Session σ) (p : Program) : Except Interrupt Value × Session σ :=
  let (result, machine) := Eval.execute s.context Eval.ampleFuel p s.machine
  (result, { s with machine })

/-- Forces a value. -/
def force (s : Session σ) (v : Value) : Except Interrupt Value × Session σ :=
  let (result, machine) := Eval.forceOn s.context Eval.ampleFuel v s.machine
  (result, { s with machine })

/-- Puts off an expression in a frame. -/
def delay (s : Session σ) (expression : Node) (home : FrameRef) : ThunkRef × Session σ :=
  let (r, memory) := s.state.memory.newThunk expression home
  (r, s.mapState ({ · with memory }))

end Session

/-- Runs a program by itself. Yields its value, if it has one, and the state that
    is left. -/
def Program.run (p : Program) (settings : Settings) : Except Interrupt Value × State :=
  let (result, s) := (Session.start settings ()).execute p
  (result, s.state)

end MiniC
