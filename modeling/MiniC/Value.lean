import MiniC.Declared
import MiniC.Number.Integral

/-!
# Values

Arrays and thunks are shared: a value holds a reference, and what it refers to
lies in the memory. Functions are values with an identity of their own.
-/

namespace MiniC

/-- A reference to a frame: a frame of the state by its number, or a detached
    one, which belongs to no state and shows the number of the global frame. -/
inductive FrameRef where
  | numbered (n : Nat)
  | detached (k : Nat)
deriving DecidableEq, Repr, Inhabited

/-- The number under which a frame is shown. -/
def FrameRef.number : FrameRef → Nat
  | numbered n => n
  | detached _ => 0

/-- The number of the global frame. -/
def globalNumber : Nat := 0

/-- The global frame. -/
def FrameRef.global : FrameRef := .numbered globalNumber

/-- A reference to an array. -/
structure ArrayRef where
  index : Nat
deriving DecidableEq, Repr

/-- A reference to a thunk. -/
structure ThunkRef where
  index : Nat
deriving DecidableEq, Repr

/-! ## Functions -/

/-- A function of the program. Two functions are the same when they were made by
    the same evaluation of a declaration or expression. -/
structure Closure where
  identity : Nat
  name : Option String
  params : List Param
  body : Node

/-- The name under which a function is shown. -/
def Closure.displayName (c : Closure) : String := c.name.getD "<anonymous>"

/-- The functions that are there from the start. -/
inductive Builtin where
  | print | putchar | abs
deriving DecidableEq, Repr

namespace Builtin

/-- The built-in functions in the order in which they are declared. -/
def all : List Builtin := [.print, .putchar, .abs]

/-- The name of a built-in function. -/
def name : Builtin → String
  | print => "print" | putchar => "putchar" | abs => "abs"

/-- The built-in function of a name. -/
def ofName? (s : String) : Option Builtin := all.find? (·.name == s)

/-- The kinds of its parameters. -/
def params : Builtin → List Kind
  | print => [.plain .double]
  | putchar => [.plain .int]
  | abs => [.plain .int]

/-- The kind of its result. -/
def result : Builtin → Kind
  | print => .plain .void
  | putchar => .plain .int
  | abs => .plain .int

end Builtin

/-! ## Values -/

/-- A value of the program. -/
inductive Value where
  | void
  | number (x : Float)
  | bool (b : Bool)
  | closure (c : Closure)
  | builtin (f : Builtin)
  | array (r : ArrayRef)
  | lazy (r : ThunkRef)

instance : Inhabited Value := ⟨.void⟩

namespace Value

/-- The type of a value. -/
def type : Value → ValueType
  | void => .void
  | number _ => .number
  | bool _ => .bool
  | closure _ | builtin _ => .function
  | array _ => .array
  | lazy _ => .thunk

/-- Whether a condition with this value holds: void does not, a number does
    unless it is zero, and every object does. -/
def truthy : Value → Bool
  | void => false
  | number x => x != 0.0
  | bool b => b
  | closure _ | builtin _ | array _ | lazy _ => true

/-- The number that a value counts as in arithmetic. -/
def toNumber? : Value → Option Float
  | number x => some x
  | bool b => some (if b then 1.0 else 0.0)
  | _ => none

/-- Whether the value is a whole number. -/
def isWhole : Value → Bool
  | number x => Number.isWhole x
  | _ => false

/-- Whether the value waits to be computed, or was. -/
def isLazy : Value → Bool
  | lazy _ => true
  | _ => false

end Value

/-- What a variable holds before anything is assigned to it. -/
def Kind.zero (k : Kind) : Value :=
  if k = .plain .void then .void else if k = .plain .bool then .bool false else .number 0.0

end MiniC
