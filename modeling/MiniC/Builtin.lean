import MiniC.Cast

/-!
# The built-in functions

A built-in function makes a value and a text of its arguments and touches
nothing else; the text goes to the output.
-/

namespace MiniC.Builtin

/-- The number that the only argument counts as. -/
def numberArgument (f : Builtin) : List Value → Except EvalError Float
  | [v] =>
    match v.toNumber? with
    | some x => .ok x
    | none => .error (.type (.notANumber f.name v.type) none)
  | arguments => .error (.arity f.name 1 arguments.length none)

/-- The character of a code. -/
def character? (code : Float) : Option Char :=
  let word := (Number.toWord code).toInt
  if 0 ≤ word ∧ word.toNat.isValidChar then some (Char.ofNat word.toNat) else none

/-- The result of a call, and the text that it writes: `print` writes a number on
    a line of its own, `putchar` the character of a code, and `abs` nothing. -/
def run (f : Builtin) (arguments : List Value) : Except EvalError (Value × String) := do
  let x ← f.numberArgument arguments
  match f with
  | print => .ok (.void, Number.print x ++ "\n")
  | putchar =>
    match character? x with
    | some c => .ok (.number x, c.toString)
    | none => .error (.type (.notACharacter x) none)
  | abs => .ok (.number x.abs, "")

/-- Fits the arguments to the kinds of the parameters, runs the function and fits
    its result. -/
def apply (f : Builtin) (arguments : List Value) (span : Option Span) : Except EvalError (Value × String) := do
  if arguments.length ≠ f.params.length then
    throw (.arity f.name f.params.length arguments.length span)
  let fitted ← (arguments.zip f.params).mapM fun (v, k) => v.cast k span
  let (result, text) ← f.run fitted
  return (← result.cast f.result span, text)

end MiniC.Builtin
