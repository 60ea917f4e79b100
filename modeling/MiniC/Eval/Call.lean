import MiniC.Eval.Force
import MiniC.Builtin

/-!
# Calls

Functions are found by name in the global frame. A call gets a frame inside the
global one, so that it sees its own names and the global ones. When its body is
done the chain has to be as it was before the call.
-/

namespace MiniC

/-- The body of a function ends normally or with `return`; either way the call
    has its value. -/
def Eval.bodyValue {σ : Type} : Completion → Eval σ Value
  | .normal v | .returned v => pure v
  | .jump jump span => Eval.fail (.jumpOutsideLoop jump span)

/-- Fits the result of a call to the kind of the function. A missing result stays
    missing. -/
def Value.castResult (v : Value) (kind : Kind) (span : Option Span) : Except EvalError Value :=
  match v with
  | .void => .ok .void
  | v => v.cast kind span

namespace Eval
variable {σ : Type}

/-- Binds parameters to arguments in the frame on top. -/
def bindParams (span : Option Span) : List (Param × Value) → Eval σ Unit
  | [] => pure ()
  | (p, v) :: rest => do
    let v ← ofExcept (v.cast p.kind span)
    declare p.name p.kind v span
    bindParams span rest

/-- Enters a call: a frame inside the global one, and a record of the call. Yields
    the number of the frame. -/
def enterCall (name : String) : Eval σ Nat := modifyGet fun s =>
  let caller := s.top.number
  let (frame, s) := s.pushInside (.call name) .global
  (frame, s.pushCall ⟨name, caller, frame⟩)

/-- Leaves a call whose frame is on top, and checks that the frame under it is
    the one from which the call was made. -/
def leaveCall (name : String) (frame : Nat) : Eval σ Unit := do
  let found := (← state).top.number
  if found ≠ frame then
    fail (.invariant (.coveredCall name found frame))
  pop frame
  match (← state).calls with
  | [] => fail (.invariant (.missingCall name))
  | call :: _ =>
    modify (·.popCall)
    let found := (← state).top.number
    if call.frame ≠ frame ∨ found ≠ call.caller then
      fail (.invariant (.wrongCaller name found call.caller))

/-- Evaluates something inside a call. -/
def inCall {α : Type} (name : String) (x : Eval σ α) : Eval σ α := do
  let frame ← enterCall name
  let a ← x
  leaveCall name frame
  pure a

/-- One more call has to be allowed. -/
def checkDepth (limit : Nat) (span : Option Span) : Eval σ Unit := do
  if limit ≤ (← state).callDepth then
    fail (.callDepth limit span)

/-- Calls a built-in function. -/
def callBuiltin (f : Builtin) (arguments : List Value) (span : Option Span) : Eval σ Value := do
  let (v, text) ← ofExcept (f.apply arguments span)
  modify (·.write text)
  pure v

end Eval

namespace Visitor
variable {σ : Type} (inner : Visitor σ)

/-- Calls a function of the program by a name under which it is bound. -/
def callClosure (limit : Nat) (name : String) (c : Closure) (kind : Kind) (arguments : List Value)
    (span : Option Span) : Eval σ Value := do
  if arguments.length ≠ c.params.length then
    Eval.fail (.arity name c.params.length arguments.length span)
  Eval.checkDepth limit span
  Eval.inCall name do
    Eval.bindParams span (c.params.zip arguments)
    let v ← inner.force (← Eval.bodyValue (← inner.node c.body))
    Eval.ofExcept (v.castResult kind span)

/-- Evaluates a call: finds the function, then evaluates the arguments, then
    calls it. -/
def call (limit : Nat) (callee : Node) (arguments : List Node) (span : Option Span) : Eval σ Value := do
  match callee.form with
  | .identifier name =>
    match (← Eval.state).global? name with
    | none => Eval.fail (.undefinedFunction name (callee.loc <|> span))
    | some ⟨kind, .closure c⟩ => inner.callClosure limit name c kind (← inner.actuals arguments) span
    | some ⟨_, .builtin f⟩ => Eval.callBuiltin f (← inner.actuals arguments) span
    | some _ => Eval.fail (.notCallable name span)
  | form => Eval.fail (.notCallable form.label.name span)

end Visitor
end MiniC
