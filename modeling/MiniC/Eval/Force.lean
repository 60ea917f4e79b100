import MiniC.Eval.Basic
import MiniC.Outline

/-!
# Visiting parts and forcing thunks

Every construct is evaluated in terms of the visits of its parts. A visitor gives
those visits, one unit of fuel poorer than the construct itself, and the fuel for
whatever else the construct repeats.

A thunk is computed in the frame it comes from, which is on top of the chain
meanwhile, and at most once. While it is computed it counts as forcing, so that a
thunk that needs itself is found out.
-/

namespace MiniC

/-- What a construct evaluates its parts with. -/
structure Visitor (σ : Type) where
  visit : Node → FrameTag → Eval σ Completion
  fuel : Nat

/-- The outline of a completion. -/
def Completion.outline? (m : Memory) : Completion → Option String
  | normal v => (m.outline? v).map (Outline.wrap "Normal")
  | jump .breakLoop span => some (Outline.wrap "Break" (placeOutline span))
  | jump .continueLoop span => some (Outline.wrap "Continue" (placeOutline span))
  | returned v => (m.outline? v).map (Outline.wrap "Return")

/-- What comes of a node that has completed otherwise than with a value where one is
    needed: an error that tells how, if that can be told. -/
def Completion.stray (c : Completion) (label : Label) (m : Memory) : Interrupt :=
  match c.outline? m with
  | some shown => .error (.invariant (.strayCompletion label shown))
  | none => .endlessText

/-- Moves a thunk of a state to another phase. -/
def State.setPhase (s : State) (r : ThunkRef) (phase : Phase) : State :=
  { s with memory := s.memory.setPhase r phase }

namespace Eval
variable {σ : Type}

/-- Ends since a node has completed otherwise than with a value. -/
def stray {α : Type} (label : Label) (c : Completion) : Eval σ α := do
  throw (c.stray label (← state).memory)

/-- Puts off an expression in the frame on top. -/
def delay (n : Node) : Eval σ Value := do
  let home := (← state).top
  return .lazy (← allocate (·.newThunk n home))

/-- Computes a thunk by evaluating its expression, unless that was done before. If
    it fails the thunk can be tried again. -/
def compute (r : ThunkRef) (evaluate : Node → Eval σ Value) : Eval σ Value := do
  let thunk := (← state).memory.thunk r
  match thunk.phase with
  | .forced v => pure v
  | .forcing => fail (.cyclicThunk thunk.expression.loc)
  | .pending =>
    modify fun s => (s.setPhase r .forcing).reenter thunk.home
    let v ← undoing (·.setPhase r .pending) (evaluate thunk.expression)
    pop thunk.home.number
    modify (·.setPhase r (.forced v))
    pure v

end Eval

namespace Visitor
variable {σ : Type} (inner : Visitor σ)

/-- Visits a node; if it is a block it gets the frame of a plain one. -/
def node (n : Node) : Eval σ Completion := inner.visit n .block

/-- Evaluates an expression to a value, which may be a thunk. -/
def expression (n : Node) : Eval σ Value := do
  match ← inner.node n with
  | .normal v => pure v
  | other => Eval.stray n.label other

/-- Computes thunks until there is a plain value. -/
def forceWithin : Nat → Value → Eval σ Value
  | 0, _ => throw .outOfFuel
  | fuel + 1, .lazy r => Eval.compute r fun n => do forceWithin fuel (← inner.expression n)
  | _ + 1, v => pure v

/-- Computes a value that may be a thunk. -/
def force (v : Value) : Eval σ Value := inner.forceWithin inner.fuel v

/-- Evaluates an expression to a plain value. -/
def actual (n : Node) : Eval σ Value := do inner.force (← inner.expression n)

/-- Whether a condition holds. -/
def holds (n : Node) : Eval σ Bool := return (← inner.actual n).truthy

/-- Evaluates expressions to plain values, from left to right. -/
def actuals (nodes : List Node) : Eval σ (List Value) := nodes.mapM inner.actual

end Visitor
end MiniC
