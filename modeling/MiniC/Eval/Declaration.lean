import MiniC.Eval.Place

/-!
# Declarations

Variables are declared in the frame on top and functions in the global frame. The
initialiser of a variable is fitted to its kind at once, or put off as a cast in
the frame of the declaration.
-/

namespace MiniC

/-- The cast of an expression to a kind, as an expression in the same place. -/
def Node.castTo (n : Node) (kind : Kind) : Node := ⟨.member n kind.tag false, n.loc⟩

namespace Visitor
variable {σ : Type} (inner : Visitor σ)

/-- The length that a declaration gives an array. -/
def arrayLength (size : Node) (span : Option Span) : Eval σ Nat := do
  match ← inner.actual size with
  | .number x =>
    match Number.toCount? x with
    | some length =>
      if maxArrayLength < length then Eval.fail (.type (.arrayTooLarge x) span) else pure length
    | none => Eval.fail (.invalidIndex span)
  | _ => Eval.fail (.invalidIndex span)

/-- The elements that an initialiser gives an array, fitted to their kind. -/
def initialElements (element : Kind) (length : Nat) (initial : Node) (span : Option Span) :
    Eval σ (List Value) := do
  match ← inner.actual initial with
  | .array r =>
    let values := ((← Eval.state).memory.elements r).toList
    if length < values.length then
      Eval.fail (.type (.excessElements values.length length) span)
    values.mapM fun v => Eval.ofExcept (v.cast element span)
  | other => Eval.fail (.type (.notAnArray other.type) span)

/-- Makes the array of a declaration; elements without an initialiser are zero. -/
def declaredArray (element : Kind) (size : Node) (initial : Option Node) (span : Option Span) :
    Eval σ Value := do
  let length ← inner.arrayLength size (size.loc <|> span)
  let given ← match initial with
    | some initial => inner.initialElements element length initial (initial.loc <|> span)
    | none => pure []
  let elements := given.toArray ++ Array.replicate (length - given.length) element.zero
  return .array (← Eval.allocate (·.newArray elements))

/-- The first value of a variable. -/
def initialValue (strategy : Strategy) (kind : Kind) (initial : Option Node) (span : Option Span) :
    Eval σ Value := do
  match initial, strategy with
  | none, _ => pure kind.zero
  | some initial, .strict => Eval.ofExcept ((← inner.actual initial).cast kind (initial.loc <|> span))
  | some initial, .lazy => Eval.delay (initial.castTo kind)

/-- Declares one variable or array. -/
def declarator (strategy : Strategy) (d : Declarator) (span : Option Span) : Eval σ Unit := do
  let span := d.loc <|> span
  let (name, kind) ← Eval.ofExcept d.id.declared
  if kind.isVoid then
    Eval.fail (.type (.voidVariable name) span)
  match d.size with
  | some size =>
    let v ← inner.declaredArray kind size d.initial span
    Eval.declare name kind.pointerTo v span
  | none =>
    let v ← inner.initialValue strategy kind d.initial span
    Eval.declare name kind v span

/-- Declares variables from left to right. -/
def declarators (strategy : Strategy) (span : Option Span) : List Declarator → Eval σ Unit
  | [] => pure ()
  | d :: rest => do
    inner.declarator strategy d span
    declarators strategy span rest

end Visitor

namespace Eval
variable {σ : Type}

/-- Makes a function. -/
def newClosure (name : Option String) (params : List Node) (body : Node) : Eval σ Value := do
  let params ← ofExcept (declaredParams params)
  return .closure (← allocate (·.newClosure name params body))

/-- Declares a function. It takes the place of an earlier one of that name, but
    not of anything else. -/
def declareFunction (id : Node) (params : List Node) (body : Node) (span : Option Span) : Eval σ Unit := do
  let (name, kind) ← ofExcept id.declared
  let v ← newClosure (some name) params body
  match (← state).global? name with
  | some ⟨_, .closure _⟩ => modify (·.bind .global name ⟨kind, v⟩)
  | _ => declareGlobal name kind v span

end Eval
end MiniC
