import MiniC.Eval.Call
import MiniC.Eval.Declaration
import MiniC.Eval.Loop

/-!
# Visits

The visit of a node is its evaluation between two suspension points. What the
evaluation does depends on the form of the node alone; its parts are visited with
one unit of fuel less.
-/

namespace MiniC

namespace Visitor
variable {σ : Type} (inner : Visitor σ)

/-- Evaluates statements up to the first that does not complete normally. The
    value is that of the last one. -/
def statements (last : Value) : List Node → Eval σ Completion
  | [] => pure (.normal last)
  | n :: rest => do
    match ← inner.node n with
    | .normal v => statements v rest
    | other => pure other

/-- Evaluates a block in a frame of its own. Its value is computed before the
    frame goes, since a thunk may need what is declared there. -/
def block (body : List Node) (tag : FrameTag) : Eval σ Completion :=
  Eval.inFrame tag do
    match ← inner.statements .void body with
    | .normal v => return .normal (← inner.force v)
    | other => pure other

/-- Evaluates a conditional statement. -/
def branch (test consequent : Node) (alternate : Option Node) : Eval σ Completion := do
  if ← inner.holds test then
    inner.node consequent
  else
    match alternate with
    | some alternate => inner.node alternate
    | none => pure (.normal .void)

/-- Evaluates a logical expression; the right operand only if the left one does
    not decide. -/
def logical (op : LogicalOp) (left right : Node) : Eval σ Value := do
  match op, ← inner.holds left with
  | .and, false => pure (.bool false)
  | .or, true => pure (.bool true)
  | _, _ => return .bool (← inner.holds right)

/-- Evaluates expressions in order; the value is that of the last one, which
    alone is computed if it is a thunk. -/
def sequence (last : Value) : List Node → Eval σ Value
  | [] => inner.force last
  | n :: rest => do sequence (← inner.expression n) rest

end Visitor

namespace Eval
variable {σ : Type}

/-- Evaluates a node by its form. -/
def byForm (settings : Settings) (inner : Visitor σ) (n : Node) (tag : FrameTag) : Eval σ Completion :=
  let span := n.loc
  match n.form with
  | .block body => inner.block body tag
  | .expression e => return .normal (← inner.expression e)
  | .declaration declarators => do
    inner.declarators settings.strategy span declarators
    pure (.normal .void)
  | .function id params body => do
    declareFunction id params body span
    pure (.normal .void)
  | .branch test consequent alternate => inner.branch test consequent alternate
  | .whileLoop test body => inner.whileLoop test body
  | .doLoop body test => inner.doLoop body test
  | .forLoop start test update body => inner.forLoop start test update body
  | .breakLoop => pure (.jump .breakLoop span)
  | .continueLoop => pure (.jump .continueLoop span)
  | .returnValue (some argument) => return .returned (← inner.actual argument)
  | .returnValue none => pure (.returned .void)
  | .literal (.bool b) => pure (.normal (.bool b))
  | .literal (.number x) => pure (.normal (.number x))
  | .identifier name => return .normal (← ofExcept ((← state).lookup name span)).value
  | .binary op left right => do
    let left ← inner.actual left
    let right ← inner.actual right
    return .normal (← applyBinary op left right span)
  | .logical op left right => return .normal (← inner.logical op left right)
  | .unary op argument => return .normal (← ofExcept (op.apply (← inner.actual argument) span))
  | .assign op left right => return .normal (← inner.assign op left right span)
  | .update op argument before => return .normal (← inner.step op argument before span)
  | .call callee arguments => return .normal (← inner.call settings.maxCallDepth callee arguments span)
  | .choice test consequent alternate => do
    return .normal (← inner.actual (if ← inner.holds test then consequent else alternate))
  | .sequence expressions => return .normal (← inner.sequence .void expressions)
  | .member object property false => do
    let v ← inner.actual object
    let kind ← ofExcept property.kind
    return .normal (← ofExcept (v.cast kind span))
  | .member object property true => do
    let (array, index) ← inner.element object property span
    return .normal (← inner.force ((← state).memory.element array index))
  | .array elements => do
    let values ← inner.actuals elements
    return .normal (.array (← allocate (·.newArray values.toArray)))
  | .lambda params body => return .normal (← newClosure none params body)
  | .typeTag name _ => fail (.type (.typeAsExpression name) span)

/-- Visits a node with so much fuel. -/
def visit (ctx : Context σ) : Nat → Node → FrameTag → Eval σ Completion
  | 0, _, _ => throw .outOfFuel
  | fuel + 1, n, tag => do
    enter ctx n.summary
    let c ← byForm ctx.settings ⟨visit ctx fuel, fuel⟩ n tag
    exit ctx n.summary
    pure c

/-- The visitor with so much fuel. -/
def visitor (ctx : Context σ) (fuel : Nat) : Visitor σ := ⟨visit ctx fuel, fuel⟩

end Eval
end MiniC
