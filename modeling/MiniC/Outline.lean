import MiniC.Tree.Outline
import MiniC.State

/-!
# Outlines of values, thunks and frames
-/

namespace MiniC

open Outline

/-- The outline of a parameter. -/
def Param.outline (p : Param) : String := parts "Param" [("name", Text.quote p.name), ("kind", p.kind.outline)]

/-- The outline of a function. -/
def Closure.outline (c : Closure) : String :=
  parts "Closure" [("name", Outline.option (c.name.map Text.quote)),
    ("params", list (c.params.map Param.outline)), ("body", c.body.outline)]

/-- The outline of a built-in function. -/
def Builtin.outline (f : Builtin) : String :=
  parts "NativeFunction" [("name", Text.quote f.name), ("arity", toString f.params.length)]

/-- The outline of a thunk: the label of its expression and where it stands, unless
    it has been computed to a value whose text never ends. -/
def Memory.thunkOutline? (m : Memory) (t : Thunk) : Option String := do
  let standing ← match t.phase with
    | .pending => pure s!"pending in frame {t.home.number}"
    | .forcing => pure s!"forcing in frame {t.home.number}"
    | .forced v => (m.show? v).map ("forced: " ++ ·)
  return parts "Thunk" [("expression", Text.quote t.expression.label.name), ("state", Text.quote standing)]

/-- The outline of a value, going through no more than so many arrays inside each
    other. -/
def Memory.outlineWithin? (m : Memory) : Nat → Value → Option String
  | _, .void => some "Void"
  | _, .number x => some (wrap "Number" (Number.tagged.render x))
  | _, .bool b => some (wrap "Bool" (Outline.bool b))
  | _, .closure c => some (wrap "Closure" c.outline)
  | _, .builtin f => some (wrap "Native" f.outline)
  | _, .lazy r => do
    let thunk ← m.thunkOutline? (m.thunk r)
    return wrap "Lazy" (parts "RefCell" [("value", thunk)])
  | 0, .array _ => none
  | fuel + 1, .array r => do
    let items ← (m.elements r).toList.mapM (m.outlineWithin? fuel)
    return wrap "Array" (parts "RefCell" [("value", list items)])

/-- The outline of a value. A way through more arrays than there are meets one of
    them again and has no end; then there is no outline. -/
def Memory.outline? (m : Memory) (v : Value) : Option String := m.outlineWithin? (m.arrays.size + 1) v

/-- The outline of a tag. -/
def FrameTag.outline : FrameTag → String
  | global => "Global"
  | block => "Block"
  | loop .forLoop => wrap "Loop" "For"
  | loop .whileLoop => wrap "Loop" "While"
  | loop .doLoop => wrap "Loop" "DoWhile"
  | call function => wrap "Call" (Text.quote function)

/-- The outline of a frame, which shows the names and not what they are bound to. -/
def State.frameOutline (s : State) (r : FrameRef) : String :=
  let frame := s.frame r
  parts "Environment" [("id", toString r.number), ("tag", frame.tag.outline),
    ("parent", Outline.option (frame.parent?.map fun p => toString p.number)),
    ("names", list (frame.bindings.names.map Text.quote))]

end MiniC
