import MiniC.Eval.Basic

/-!
# Operators

Truth values count as numbers for every operator but `!`. The bitwise operators
work on the 64-bit words of their operands. Only equality is there for values
that are not numbers.
-/

namespace MiniC

/-- The result of a binary operator on numbers. -/
def BinaryOp.onNumbers (op : BinaryOp) (x y : Float) (span : Option Span) : Except EvalError Value :=
  let bitwise (f : Int64 → Int64 → Int64) : Except EvalError Value :=
    .ok (.number (Number.ofWord (f (Number.toWord x) (Number.toWord y))))
  let shift (f : Int64 → Int64 → Int64) : Except EvalError Value :=
    let count := (Number.toWord y).toInt
    if 0 ≤ count ∧ count < 64 then bitwise f else .error (.type (.shiftOutOfRange count) span)
  let division (result : Float) : Except EvalError Value :=
    if y == 0.0 then .error (.divisionByZero span) else .ok (.number result)
  match op with
  | add => .ok (.number (x + y))
  | sub => .ok (.number (x - y))
  | mul => .ok (.number (x * y))
  | div => division (x / y)
  | mod => division (Number.remainder x y)
  | lt => .ok (.bool (x < y))
  | le => .ok (.bool (x ≤ y))
  | gt => .ok (.bool (y < x))
  | ge => .ok (.bool (y ≤ x))
  | eq => .ok (.bool (x == y))
  | ne => .ok (.bool (x != y))
  | bitAnd => bitwise (· &&& ·)
  | bitOr => bitwise (· ||| ·)
  | bitXor => bitwise (· ^^^ ·)
  | shl => shift (· <<< ·)
  | shr => shift (· >>> ·)

/-- The result of a unary operator. -/
def UnaryOp.apply (op : UnaryOp) (v : Value) (span : Option Span) : Except EvalError Value :=
  match op, v.toNumber? with
  | not, _ => .ok (.bool !v.truthy)
  | neg, some x => .ok (.number (-x))
  | plus, some x => .ok (.number x)
  | bitNot, some x => .ok (.number (Number.ofWord (~~~ Number.toWord x)))
  | _, none => .error (.type (.badOperand v.type) span)

namespace Eval
variable {σ : Type}

/-- Whether two values that are not both numbers are the same. -/
def sameValues (v w : Value) : Eval σ Bool := do
  match (← state).memory.same? v w with
  | some same => pure same
  | none => throw .endlessComparison

/-- The result of a binary operator. -/
def applyBinary (op : BinaryOp) (left right : Value) (span : Option Span) : Eval σ Value :=
  match left.toNumber?, right.toNumber? with
  | some x, some y => ofExcept (op.onNumbers x y span)
  | _, _ =>
    match op with
    | .eq => return .bool (← sameValues left right)
    | .ne => return .bool !(← sameValues left right)
    | _ => fail (.type (.badOperands op left.type right.type) span)

end Eval
end MiniC
