import MiniC.Value

/-!
# Memory

Arrays and thunks live in two growing stores. A store is only ever extended or
changed at one index, so a reference stays valid for good.
-/

namespace MiniC

/-- Where a thunk stands: waiting, being computed, or computed for good. -/
inductive Phase where
  | pending
  | forcing
  | forced (v : Value)

/-- An expression put off, with the frame in which it is to be computed. -/
structure Thunk where
  expression : Node
  home : FrameRef
  phase : Phase

instance : Inhabited Thunk := ⟨⟨Tree.block [], .global, .forced .void⟩⟩

/-- The value of a thunk that has been computed. -/
def Thunk.memo? (t : Thunk) : Option Value :=
  match t.phase with
  | .forced v => some v
  | _ => none

/-- Whether a thunk has been computed. -/
def Thunk.isForced (t : Thunk) : Bool := t.memo?.isSome

/-- The arrays and thunks of a state, and how many functions have been made. -/
structure Memory where
  arrays : Array (Array Value) := #[]
  thunks : Array Thunk := #[]
  closures : Nat := 0

namespace Memory

/-! ## Arrays -/

/-- The elements of an array. -/
def elements (m : Memory) (r : ArrayRef) : Array Value := m.arrays.getD r.index #[]

/-- The number of elements of an array. -/
def length (m : Memory) (r : ArrayRef) : Nat := (m.elements r).size

/-- The element at an index inside an array. -/
def element (m : Memory) (r : ArrayRef) (i : Nat) : Value := (m.elements r).getD i .void

/-- Makes a fresh array. -/
def newArray (m : Memory) (elements : Array Value) : ArrayRef × Memory :=
  (⟨m.arrays.size⟩, { m with arrays := m.arrays.push elements })

/-- Replaces the element at an index inside an array. -/
def setElement (m : Memory) (r : ArrayRef) (i : Nat) (v : Value) : Memory :=
  { m with arrays := m.arrays.modify r.index (·.setIfInBounds i v) }

/-! ## Thunks and functions -/

/-- The thunk of a reference. -/
def thunk (m : Memory) (r : ThunkRef) : Thunk := m.thunks.getD r.index default

/-- Makes a fresh thunk over a frame. -/
def newThunk (m : Memory) (expression : Node) (home : FrameRef) : ThunkRef × Memory :=
  (⟨m.thunks.size⟩, { m with thunks := m.thunks.push ⟨expression, home, .pending⟩ })

/-- Moves a thunk to another phase. -/
def setPhase (m : Memory) (r : ThunkRef) (phase : Phase) : Memory :=
  { m with thunks := m.thunks.modify r.index ({ · with phase }) }

/-- Makes a fresh function. -/
def newClosure (m : Memory) (name : Option String) (params : List Param) (body : Node) : Closure × Memory :=
  (⟨m.closures, name, params, body⟩, { m with closures := m.closures + 1 })

/-! ## Equality -/

/-- Compares two lists item by item, up to the first difference. -/
def sameLists (same? : Value → Value → Option Bool) : List Value → List Value → Option Bool
  | [], [] => some true
  | v :: vs, w :: ws =>
    match same? v w with
    | some true => sameLists same? vs ws
    | answer => answer
  | _, _ => some false

/-- Compares two values, going through no more than so many arrays inside each
    other. Arrays are the same when they are one array, or when they have the
    same length and the same elements; functions and thunks only when they are
    one. -/
def sameWithin? (m : Memory) : Nat → Value → Value → Option Bool
  | 0, _, _ => none
  | _ + 1, .void, .void => some true
  | _ + 1, .number x, .number y => some (x == y)
  | _ + 1, .bool a, .bool b => some (a == b)
  | _ + 1, .closure c, .closure d => some (c.identity == d.identity)
  | _ + 1, .builtin f, .builtin g => some (f == g)
  | fuel + 1, .array r, .array s =>
    if r = s then some true
    else if m.length r ≠ m.length s then some false
    else sameLists (m.sameWithin? fuel) (m.elements r).toList (m.elements s).toList
  | _ + 1, .lazy r, .lazy s => some (r == s)
  | _ + 1, _, _ => some false

/-- Compares two values. A descent through more pairs of arrays than there are
    meets some pair again and has no end; then there is no answer. -/
def same? (m : Memory) (v w : Value) : Option Bool :=
  m.sameWithin? (m.arrays.size * m.arrays.size + 1) v w

/-! ## Values as text -/

/-- The text of a value, going through no more than so many arrays and thunks
    inside each other. -/
def showWithin? (m : Memory) : Nat → Value → Option String
  | _, .void => some "void"
  | _, .number x => some (Number.print x)
  | _, .bool b => some (if b then "true" else "false")
  | _, .closure c => some s!"<function {c.displayName}>"
  | _, .builtin f => some s!"<builtin {f.name}>"
  | 0, _ => none
  | fuel + 1, .array r => do
    let items ← (m.elements r).toList.mapM (m.showWithin? fuel)
    return "\x7b" ++ ", ".intercalate items ++ "\x7d"
  | fuel + 1, .lazy r =>
    match (m.thunk r).memo? with
    | some v => m.showWithin? fuel v
    | none => some "<thunk>"

/-- The text of a value. A way through more arrays and thunks than there are meets
    one of them again and has no end; then there is no text. -/
def show? (m : Memory) (v : Value) : Option String :=
  m.showWithin? (m.arrays.size + m.thunks.size + 1) v

end Memory
end MiniC
