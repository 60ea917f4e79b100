import MiniC.EvalError

/-!
# Declared names and types in the tree

The tag of a type is read as a kind, and the member access that stands for a
declared name as the name with its kind.
-/

namespace MiniC

/-- The kind that a tag stands for. The stars in its name and those it adds are
    counted together. -/
def Node.kind (n : Node) : Except EvalError Kind :=
  match n.form with
  | .typeTag name pointers =>
    match Kind.ofSpelling name with
    | .error unknown => .error (.type (.unknownType unknown) n.loc)
    | .ok base =>
      if base.pointers.toNat + pointers.toNat < pow2 32 then .ok ⟨base.primitive, base.pointers + pointers⟩
      else .error (.type (.tooManyPointers name) n.loc)
  | form => .error (.type (.notAType form.label) n.loc)

/-- The name and kind of a declaration. -/
def Node.declared (n : Node) : Except EvalError (String × Kind) :=
  match n.form with
  | .member object property false =>
    match object.form with
    | .identifier name => property.kind.map fun kind => (name, kind)
    | form => .error (.type (.notAName form.label) object.loc)
  | form => .error (.type (.notTyped form.label) n.loc)

/-- The tag of a kind. -/
def Kind.tag (k : Kind) : Node := Tree.bare (.typeTag k.primitive.name k.pointers)

/-- A parameter of a function. -/
structure Param where
  name : String
  kind : Kind
deriving DecidableEq, Repr

/-- The parameters that a list of nodes declares. -/
def declaredParams (params : List Node) : Except EvalError (List Param) :=
  params.mapM fun p => p.declared.map fun (name, kind) => ⟨name, kind⟩

end MiniC
