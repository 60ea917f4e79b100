import MiniC.Observer
import MiniC.Settings.Basic
import MiniC.Cast

/-!
# Evaluation, step by step

An evaluation acts on a machine: the state of the program and the memory of its
observer. It ends with a value or with an interrupt, and leaves the machine as it
was at that moment. Fuel bounds the visits inside each other and the rounds of
every loop; running out of it is an interrupt of its own.
-/

namespace MiniC

/-- How control leaves a node. -/
inductive Completion where
  | normal (v : Value)
  | jump (jump : Jump) (span : Option Span)
  | returned (v : Value)

/-- Why an evaluation ends early. -/
inductive Interrupt where
  | error (e : EvalError)
  | halted
  /-- The fuel was too small to tell how the evaluation ends. -/
  | outOfFuel
  /-- Two arrays that contain themselves are compared. -/
  | endlessComparison
  /-- The text of a message has no end, since an array in it contains itself. -/
  | endlessText
deriving DecidableEq

/-- Whether something ends early for a reason does not depend on what it yields otherwise. -/
instance {α : Type} (r : Except Interrupt α) (i : Interrupt) : Decidable (r = .error i) :=
  match r with
  | .ok _ => isFalse nofun
  | .error j => decidable_of_iff (j = i) ⟨congrArg _, Except.error.inj⟩

/-- What an evaluation acts on. -/
structure Machine (σ : Type) where
  state : State
  watch : σ

/-- Evaluations. -/
abbrev Eval (σ : Type) := EStateM Interrupt (Machine σ)

/-- What is the same throughout an evaluation. -/
structure Context (σ : Type) where
  settings : Settings
  observer : Observer σ

namespace Eval
variable {σ : Type}

/-! ## Acting on the state -/

/-- The state. -/
def state : Eval σ State := fun m => .ok m.state m

/-- Changes the state. -/
def modify (f : State → State) : Eval σ Unit := fun m => .ok () { m with state := f m.state }

/-- Changes the state and yields something. -/
def modifyGet {α : Type} (f : State → α × State) : Eval σ α := fun m =>
  let (a, s) := f m.state
  .ok a { m with state := s }

/-- Changes the memory and yields a reference into it. -/
def allocate {α : Type} (f : Memory → α × Memory) : Eval σ α := modifyGet fun s =>
  let (a, memory) := f s.memory
  (a, { s with memory })

/-- Ends with an error. -/
def fail {α : Type} (e : EvalError) : Eval σ α := throw (.error e)

/-- Goes on with a result, or ends with its error. -/
def ofExcept {α : Type} : Except EvalError α → Eval σ α
  | .ok a => pure a
  | .error e => fail e

/-- Changes the state, or ends with an error if something is wrong with that. -/
def attempt (fault? : State → Option EvalError) (change : State → State) : Eval σ Unit := do
  match fault? (← state) with
  | some e => fail e
  | none => modify change

/-- Pops the frame on top, which has to have the expected number. -/
def pop (expected : Nat) : Eval σ Unit := attempt (·.popFault? expected) State.dropTop

/-- Evaluates something in a fresh frame inside the one on top. -/
def inFrame {α : Type} (tag : FrameTag) (x : Eval σ α) : Eval σ α := do
  let frame ← modifyGet (·.push tag)
  let a ← x
  pop frame
  pure a

/-- Declares a name in the frame on top. -/
def declare (name : String) (kind : Kind) (v : Value) (span : Option Span) : Eval σ Unit :=
  attempt (fun s => s.declareFault? s.top name span) fun s => s.bind s.top name ⟨kind, v⟩

/-- Declares a name in the global frame. -/
def declareGlobal (name : String) (kind : Kind) (v : Value) (span : Option Span) : Eval σ Unit :=
  attempt (·.declareFault? .global name span) (·.bind .global name ⟨kind, v⟩)

/-- Changes the value of a name, which has to be bound. -/
def assign (name : String) (v : Value) (span : Option Span) : Eval σ Unit :=
  attempt (·.assignFault? name span) (·.store name v)

/-- Undoes something if an evaluation ends early. -/
def undoing {α : Type} (undo : State → State) (x : Eval σ α) : Eval σ α := fun m =>
  match x m with
  | .ok a m => .ok a m
  | .error i m => .error i { m with state := undo m.state }

/-! ## Suspension points -/

/-- Announces an event. -/
def suspend (ctx : Context σ) (e : Event) : Eval σ Unit := fun m =>
  let s := { m.state with lastEvent := some e }
  match ctx.observer.onStep m.watch e s with
  | (watch, .proceed) => .ok () ⟨s, watch⟩
  | (watch, .halt) => .error .halted ⟨s, watch⟩

/-- Enters a node, if the limit of steps allows it. -/
def enter (ctx : Context σ) (node : NodeSummary) : Eval σ Unit := do
  modify (·.enterNode node)
  match ctx.settings.maxSteps with
  | some limit => if limit < (← state).steps then fail (.stepLimit limit)
  | none => pure ()
  suspend ctx (.enter node)

/-- Leaves a node. -/
def exit (ctx : Context σ) (node : NodeSummary) : Eval σ Unit := do
  modify (·.leaveNode)
  suspend ctx (.exit node)

end Eval
end MiniC
