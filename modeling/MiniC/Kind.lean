import MiniC.Tree.Build

/-!
# Declared kinds

A kind is a primitive type and a number of pointer levels. Its spelling is the
name of the primitive followed by any mixture of stars and blanks.
-/

namespace MiniC

/-- The primitive types. -/
inductive Primitive where
  | void | bool | char | int | float | double
deriving DecidableEq, Repr, Inhabited

namespace Primitive

/-- The primitive types in the order of their declaration. -/
def all : List Primitive := [.void, .bool, .char, .int, .float, .double]

/-- The name of a primitive type. -/
def name : Primitive → String
  | void => "void" | bool => "bool" | char => "char" | int => "int" | float => "float" | double => "double"

/-- The primitive type of a name; the truth values have a second one. -/
def ofName? (s : String) : Option Primitive :=
  if s == "_Bool" then some .bool else all.find? (·.name == s)

/-- The types whose numbers keep their fraction. -/
def isFloating : Primitive → Bool
  | float | double => true
  | _ => false

end Primitive

/-- A primitive type under some levels of pointers. -/
structure Kind where
  primitive : Primitive
  pointers : UInt32
deriving DecidableEq, Repr, Inhabited

namespace Kind

/-- A primitive type as it is. -/
def plain (p : Primitive) : Kind := ⟨p, 0⟩

/-- One more level of pointers. -/
def pointerTo (k : Kind) : Kind := { k with pointers := k.pointers + 1 }

/-- One level of pointers less, if there is one. -/
def pointee (k : Kind) : Kind := { k with pointers := if k.pointers = 0 then 0 else k.pointers - 1 }

/-- Whether there is a level of pointers. -/
def isPointer (k : Kind) : Bool := 0 < k.pointers

/-- Void itself, which no variable can have. -/
def isVoid (k : Kind) : Bool := k == plain .void

/-- The written form: the name, and after a blank the stars. -/
def render (k : Kind) : String :=
  if k.isPointer then k.primitive.name ++ " " ++ String.ofList (List.replicate k.pointers.toNat '*')
  else k.primitive.name

/-- The part of a spelling that has to be the name of a primitive type. -/
def baseName (spelling : String) : String :=
  String.ofList (Text.dropEnd Tree.isStarOrBlank (Text.trim spelling.toList))

/-- The kind of a spelling; the name that is not known if there is none. -/
def ofSpelling (spelling : String) : Except String Kind :=
  match Primitive.ofName? (baseName spelling) with
  | some p => .ok ⟨p, Tree.stars spelling⟩
  | none => .error (baseName spelling)

end Kind
end MiniC
