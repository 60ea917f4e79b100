import MiniC.Kind
import MiniC.Number.Layout

/-!
# Errors of evaluation

An error names its cause and, where the cause is at a place, the place. The
wording is in `message`.
-/

namespace MiniC

/-- The types a value can be of, as far as messages tell them apart. -/
inductive ValueType where
  | void | number | bool | function | array | thunk
deriving DecidableEq, Repr

/-- The name of a type of values. -/
def ValueType.name : ValueType → String
  | void => "void" | number => "number" | bool => "bool" | function => "function" | array => "array"
  | thunk => "thunk"

/-- The most elements an array may have. -/
def maxArrayLength : Nat := pow2 24

/-- What can be wrong with a type. -/
inductive TypeFault where
  | unknownType (name : String)
  | tooManyPointers (name : String)
  | notAType (found : Label)
  | notAName (found : Label)
  | notTyped (found : Label)
  | voidVariable (name : String)
  | voidUsed
  | incompatible (found : ValueType) (kind : Kind)
  | arrayTooLarge (length : Float)
  | notAnArray (found : ValueType)
  | excessElements (given length : Nat)
  | typeAsExpression (name : String)
  | notSubscriptable (found : ValueType)
  | notSteppable (found : ValueType)
  | badOperands (op : BinaryOp) (left right : ValueType)
  | badOperand (found : ValueType)
  | shiftOutOfRange (count : Int)
  | notACharacter (code : Float)
  | notANumber (function : String) (found : ValueType)
deriving DecidableEq

/-- The wording of a type fault. -/
def TypeFault.message : TypeFault → String
  | unknownType name => s!"unknown type name '{name}'"
  | tooManyPointers name => s!"too many pointer levels in '{name}'"
  | notAType found => s!"expected a type, found {found.name}"
  | notAName found => s!"expected a declared name, found {found.name}"
  | notTyped found => s!"expected a typed declaration, found {found.name}"
  | voidVariable name => s!"variable or field `{name}` declared void"
  | voidUsed => "void value not ignored as it ought to be"
  | incompatible found kind => s!"incompatible types when casting {found.name} to type {kind.render}"
  | arrayTooLarge length =>
    s!"size of array is too large ({Number.plain.render length} elements, limit {maxArrayLength})"
  | notAnArray found => s!"invalid initializer: expected an array, found {found.name}"
  | excessElements given length => s!"excess elements in array initializer ({given} for {length})"
  | typeAsExpression name => s!"expected expression before `{name}`"
  | notSubscriptable found => s!"subscripted value is {found.name}, not an array"
  | notSteppable found => s!"wrong type argument to increment ({found.name})"
  | badOperands op left right =>
    s!"invalid operands to binary {op.symbol} (have {left.name} and {right.name})"
  | badOperand found => s!"wrong type argument to unary operator ({found.name})"
  | shiftOutOfRange count => s!"shift count {count} out of range"
  | notACharacter code => s!"putchar: {Number.plain.render code} is not a character code"
  | notANumber function found => s!"{function}() expects a number, found {found.name}"

/-- What must never happen: the chain of frames, the calls or the tree are not as
    the evaluator left them. -/
inductive InvariantFault where
  | permanentFrame (expected : Nat)
  | frameMismatch (expected found : Nat)
  | unforcedCast
  | strayCompletion (label : Label) (shown : String)
  | coveredCall (function : String) (found frame : Nat)
  | missingCall (function : String)
  | wrongCaller (function : String) (found caller : Nat)
deriving DecidableEq

/-- The wording of a broken invariant. -/
def InvariantFault.message : InvariantFault → String
  | permanentFrame expected => s!"attempt to pop permanent frame while expecting frame {expected}"
  | frameMismatch expected found => s!"frame mismatch: expected {expected} on top, found {found}"
  | unforcedCast => "cast applied to an unforced lazy value"
  | strayCompletion label shown => s!"expression {label.name} completed with {shown}"
  | coveredCall function found frame =>
    s!"call to `{function}` returned with frame {found} on top instead of {frame}"
  | missingCall function => s!"call boundary for `{function}` missing"
  | wrongCaller function found caller =>
    s!"return from `{function}` landed in frame {found}, caller was {caller}"

/-- The jumps that only a loop takes. -/
inductive Jump where
  | breakLoop | continueLoop
deriving DecidableEq, Repr

/-- The keyword of a jump. -/
def Jump.keyword : Jump → String
  | breakLoop => "break" | continueLoop => "continue"

/-- An error of evaluation. -/
inductive EvalError where
  | type (fault : TypeFault) (span : Option Span)
  | undefinedVariable (name : String) (span : Option Span)
  | undefinedFunction (name : String) (span : Option Span)
  | notCallable (name : String) (span : Option Span)
  | arity (name : String) (expected received : Nat) (span : Option Span)
  | outOfBounds (index length : Nat) (span : Option Span)
  | invalidIndex (span : Option Span)
  | divisionByZero (span : Option Span)
  | redeclaration (name : String) (span : Option Span)
  | invalidTarget (span : Option Span)
  | jumpOutsideLoop (jump : Jump) (span : Option Span)
  | cyclicThunk (span : Option Span)
  | callDepth (limit : Nat) (span : Option Span)
  | stepLimit (limit : Nat)
  | halted
  | invariant (fault : InvariantFault)
deriving DecidableEq

namespace EvalError

/-- The wording of an error. -/
def message : EvalError → String
  | type fault _ => s!"Type error: {fault.message}"
  | undefinedVariable name _ => s!"Undefined variable: {name}"
  | undefinedFunction name _ => s!"Undefined function: {name}"
  | notCallable name _ => s!"Not callable: {name}"
  | arity name expected received _ =>
    s!"Function `{name}` expected {expected} arguments but received {received}"
  | outOfBounds index length _ => s!"Array index {index} out of bounds for length {length}"
  | invalidIndex _ => "Invalid index: expected a non-negative integer"
  | divisionByZero _ => "Division by zero"
  | redeclaration name _ => s!"Redeclaration of `{name}` in the same scope"
  | invalidTarget _ => "Invalid assignment target"
  | jumpOutsideLoop jump _ => s!"`{jump.keyword}` statement not within a loop"
  | cyclicThunk _ => "Lazy value forced while it was being computed"
  | callDepth limit _ => s!"Call depth exceeded limit of {limit}"
  | stepLimit limit => s!"Step limit of {limit} exceeded"
  | halted => "Evaluation halted by step observer"
  | invariant fault => s!"Internal invariant violated: {fault.message}"

/-- The place of an error. -/
def span : EvalError → Option Span
  | type _ span | undefinedVariable _ span | undefinedFunction _ span | notCallable _ span
  | arity _ _ _ span | outOfBounds _ _ span | invalidIndex span | divisionByZero span
  | redeclaration _ span | invalidTarget span | jumpOutsideLoop _ span | cyclicThunk span
  | callDepth _ span => span
  | stepLimit _ | halted | invariant _ => none

end EvalError
end MiniC
