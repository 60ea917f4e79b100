import MiniC.Eval.Force
import MiniC.Eval.Operator

/-!
# Places and assignments

A place is what can be assigned to: a variable, or an element of an array. What
is stored there is fitted to the kind of the place; the kind of an element is
known when the array is named by a variable.
-/

namespace MiniC

/-- What can be assigned to. -/
inductive Place where
  | named (name : String) (kind : Kind)
  | element (array : ArrayRef) (index : Nat) (kind : Option Kind)

/-- The declared kind of a place, if it is known. -/
def Place.kind? : Place → Option Kind
  | named _ kind => some kind
  | element _ _ kind => kind

/-- The index that a value stands for. -/
def Value.toIndex? : Value → Option Nat
  | number x => Number.toCount? x
  | _ => none

/-- Fits a value to a kind, if one is known. -/
def Value.castTo? (v : Value) (kind : Option Kind) (span : Option Span) : Except EvalError Value :=
  match kind with
  | some k => v.cast k span
  | none => .ok v

namespace Visitor
variable {σ : Type} (inner : Visitor σ)

/-- Evaluates `base[index]` to an array and an index inside it. -/
def element (base index : Node) (span : Option Span) : Eval σ (ArrayRef × Nat) := do
  let base ← inner.actual base
  let index ← inner.actual index
  match base, index.toIndex? with
  | .array r, some i =>
    let length := (← Eval.state).memory.length r
    if i < length then pure (r, i) else Eval.fail (.outOfBounds i length span)
  | .array _, none => Eval.fail (.invalidIndex span)
  | other, _ => Eval.fail (.type (.notSubscriptable other.type) span)

/-- Finds the place that an expression names. -/
def place (target : Node) (span : Option Span) : Eval σ Place := do
  match target.form with
  | .identifier name =>
    let binding ← Eval.ofExcept ((← Eval.state).lookup name (target.loc <|> span))
    pure (.named name binding.kind)
  | .member object property true =>
    let kind ← match object.form with
      | .identifier name => do
        let binding ← Eval.ofExcept ((← Eval.state).lookup name (object.loc <|> span))
        pure (some binding.kind.pointee)
      | _ => pure none
    let (array, index) ← inner.element object property span
    pure (.element array index kind)
  | _ => Eval.fail (.invalidTarget span)

/-- The plain value at a place. -/
def readPlace (place : Place) (span : Option Span) : Eval σ Value := do
  let s ← Eval.state
  match place with
  | .named name _ => inner.force (← Eval.ofExcept (s.lookup name span)).value
  | .element array index _ => inner.force (s.memory.element array index)

end Visitor

namespace Eval
variable {σ : Type}

/-- Fits a value to a place, stores it there and yields what was stored. -/
def writePlace (place : Place) (v : Value) (span : Option Span) : Eval σ Value := do
  let v ← ofExcept (v.castTo? place.kind? span)
  match place with
  | .named name _ => assign name v span
  | .element array index _ => modify fun s => { s with memory := s.memory.setElement array index v }
  pure v

end Eval

namespace Visitor
variable {σ : Type} (inner : Visitor σ)

/-- Evaluates an assignment. The place is found, and read if its old value is
    needed, before the right side is evaluated. -/
def assign (op : AssignOp) (left right : Node) (span : Option Span) : Eval σ Value := do
  let place ← inner.place left span
  let old ← op.binary?.mapM fun op => return (op, ← inner.readPlace place span)
  let v ← Eval.ofExcept ((← inner.actual right).castTo? place.kind? (right.loc <|> span))
  let v ← match old with
    | some (op, old) => Eval.applyBinary op old v span
    | none => pure v
  Eval.writePlace place v span

/-- Steps the number at a place, and yields the new or the old value. -/
def step (op : UpdateOp) (argument : Node) (before : Bool) (span : Option Span) : Eval σ Value := do
  let place ← inner.place argument span
  let old ← inner.readPlace place span
  match old.toNumber? with
  | none => Eval.fail (.type (.notSteppable old.type) span)
  | some x =>
    let new ← Eval.writePlace place (.number (match op with | .increment => x + 1.0 | .decrement => x - 1.0)) span
    pure (if before then new else old)

end Visitor
end MiniC
