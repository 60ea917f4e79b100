import MiniC.Memory
import MiniC.Event

/-!
# The state of an evaluation

The state holds every frame that was ever made, under its number, and the chain
of those in use. The global frame is the bottom of the chain and always there;
the stack holds the frames above it. Names are looked up in the frame on top and
in those around it, which are not those below it on the stack: around a call is
the global frame alone.
-/

namespace MiniC

/-! ## Frames -/

/-- The loops that make frames. -/
inductive LoopKind where
  | forLoop | whileLoop | doLoop
deriving DecidableEq, Repr

/-- What a frame was made for. -/
inductive FrameTag where
  | global
  | block
  | loop (kind : LoopKind)
  | call (function : String)
deriving DecidableEq, Repr, Inhabited

namespace FrameTag

/-- The text of a tag. -/
def render : FrameTag → String
  | global => "global"
  | block => "block"
  | loop .forLoop => "for"
  | loop .whileLoop => "while"
  | loop .doLoop => "do-while"
  | call function => "call " ++ function

/-- The global frame is permanent, and no other. -/
def isPermanent : FrameTag → Bool
  | global => true
  | _ => false

end FrameTag

/-- A value under its declared kind. -/
structure Binding where
  kind : Kind
  value : Value

/-- The bindings of a frame in the order in which they were made. -/
abbrev Bindings := List (String × Binding)

namespace Bindings

/-- The binding of a name. -/
def get? (b : Bindings) (name : String) : Option Binding := b.lookup name

/-- Whether a name is bound. -/
def contains (b : Bindings) (name : String) : Bool := b.any (·.1 == name)

/-- Changes the binding of a name, if there is one. -/
def update (f : Binding → Binding) (name : String) : Bindings → Bindings
  | [] => []
  | (key, binding) :: rest =>
    if key == name then (key, f binding) :: rest else (key, binding) :: update f name rest

/-- Binds a name, in place of what it was bound to. -/
def insert (b : Bindings) (name : String) (binding : Binding) : Bindings :=
  if b.contains name then b.update (fun _ => binding) name else b ++ [(name, binding)]

/-- The names in order. -/
def names (b : Bindings) : List String := (b.map (·.1)).mergeSort (· ≤ ·)

end Bindings

/-- A frame: what it was made for, the frames around it, the nearest first, and
    its bindings. -/
structure Frame where
  tag : FrameTag
  around : List FrameRef
  bindings : Bindings
deriving Inhabited

/-- The frame next around a frame. -/
def Frame.parent? (f : Frame) : Option FrameRef := f.around.head?

/-- A call in progress: its function and the numbers of the frame it was made
    from and of its own frame. -/
structure CallBoundary where
  function : String
  caller : Nat
  frame : Nat
deriving DecidableEq, Repr

/-- The state of an evaluation. Stacks have their top in front. -/
structure State where
  memory : Memory := {}
  frames : Array Frame := #[⟨.global, [], []⟩]
  detached : Array Frame := #[]
  stack : List FrameRef := []
  calls : List CallBoundary := []
  nodes : List NodeSummary := []
  errors : Array EvalError := #[]
  output : String := ""
  steps : Nat := 0
  lastEvent : Option Event := none
deriving Inhabited

namespace State

/-! ## The chain of frames -/

/-- The frame of a reference. -/
def frame (s : State) : FrameRef → Frame
  | .numbered n => s.frames.getD n default
  | .detached k => s.detached.getD k default

/-- Changes the state unless something is wrong. -/
def unlessFault (s : State) (fault : Option EvalError) (change : State → State) : Except EvalError State :=
  match fault with
  | some e => .error e
  | none => .ok (change s)

/-- Changes the bindings of a frame. -/
def modifyBindings (s : State) (r : FrameRef) (f : Bindings → Bindings) : State :=
  match r with
  | .numbered n => { s with frames := s.frames.modify n fun frame => { frame with bindings := f frame.bindings } }
  | .detached k => { s with detached := s.detached.modify k fun frame => { frame with bindings := f frame.bindings } }

/-- The chain, from the top to the global frame. -/
def chain (s : State) : List FrameRef := s.stack ++ [.global]

/-- The frame on top of the chain. -/
def top (s : State) : FrameRef := s.stack.headD .global

/-- The number of frames on the chain. -/
def depth (s : State) : Nat := s.stack.length + 1

/-- The number of frames that are never popped. -/
def outerDepth : Nat := 1

/-- Pushes a fresh frame inside a given one. -/
def pushInside (s : State) (tag : FrameTag) (parent : FrameRef) : Nat × State :=
  let frame : Frame := ⟨tag, parent :: (s.frame parent).around, []⟩
  (s.frames.size, { s with frames := s.frames.push frame, stack := .numbered s.frames.size :: s.stack })

/-- Pushes a fresh frame inside the one on top. -/
def push (s : State) (tag : FrameTag) : Nat × State := s.pushInside tag s.top

/-- Puts an old frame on top once more. -/
def reenter (s : State) (r : FrameRef) : State := { s with stack := r :: s.stack }

/-- Makes a frame that belongs to no chain and has nothing around it. -/
def newDetached (s : State) : FrameRef × State :=
  (.detached s.detached.size, { s with detached := s.detached.push ⟨.global, [], []⟩ })

/-- Empties a frame that has left the chain, unless the rest of the chain still
    holds it. -/
def clearIfGone (s : State) (r : FrameRef) (rest : List FrameRef) : State :=
  if r.number = globalNumber ∨ rest.any (·.number == r.number) then s else s.modifyBindings r fun _ => []

/-- Why the frame on top cannot be popped, if it cannot: it is the global one, or
    it has not the expected number. -/
def popFault? (s : State) (expected : Nat) : Option EvalError :=
  match s.stack with
  | [] => some (.invariant (.permanentFrame expected))
  | r :: _ => if r.number = expected then none else some (.invariant (.frameMismatch expected r.number))

/-- Takes the frame on top off the chain. -/
def dropTop (s : State) : State :=
  match s.stack with
  | [] => s
  | r :: rest => { s with stack := rest }.clearIfGone r rest

/-- Pops the frame on top, which has to have the expected number. -/
def pop (s : State) (expected : Nat) : Except EvalError State :=
  s.unlessFault (s.popFault? expected) dropTop

/-- Empties the frames that leave a stack one after the other. -/
def clearAll (s : State) : List FrameRef → State
  | [] => s
  | r :: rest => (s.clearIfGone r rest).clearAll rest

/-- Pops every frame above the global one and forgets all calls. -/
def unwind (s : State) : State := { s.clearAll s.stack with stack := [], calls := [] }

/-! ## Bindings -/

/-- The frames in which names are looked up, in this order. -/
def scope (s : State) : List FrameRef := s.top :: (s.frame s.top).around

/-- The first frame of the scope that binds a name. -/
def lookupFrame? (s : State) (name : String) : Option FrameRef :=
  s.scope.find? fun r => (s.frame r).bindings.contains name

/-- The binding that a name has. -/
def lookup (s : State) (name : String) (span : Option Span) : Except EvalError Binding :=
  match s.lookupFrame? name >>= fun r => (s.frame r).bindings.get? name with
  | some binding => .ok binding
  | none => .error (.undefinedVariable name span)

/-- Why a name cannot be declared in a frame, if it cannot: it is bound there. -/
def declareFault? (s : State) (r : FrameRef) (name : String) (span : Option Span) : Option EvalError :=
  if (s.frame r).bindings.contains name then some (.redeclaration name span) else none

/-- Binds a name in a frame, in place of what it was bound to. -/
def bind (s : State) (r : FrameRef) (name : String) (binding : Binding) : State :=
  s.modifyBindings r (·.insert name binding)

/-- Declares a name in the frame on top. -/
def declare (s : State) (name : String) (kind : Kind) (value : Value) (span : Option Span) :
    Except EvalError State :=
  s.unlessFault (s.declareFault? s.top name span) fun s => s.bind s.top name ⟨kind, value⟩

/-- Declares a name in the global frame. -/
def declareGlobal (s : State) (name : String) (kind : Kind) (value : Value) (span : Option Span) :
    Except EvalError State :=
  s.unlessFault (s.declareFault? .global name span) (·.bind .global name ⟨kind, value⟩)

/-- Why a name cannot be assigned to, if it cannot: nothing binds it. -/
def assignFault? (s : State) (name : String) (span : Option Span) : Option EvalError :=
  if (s.lookupFrame? name).isSome then none else some (.undefinedVariable name span)

/-- Changes the value of a name where it is bound. -/
def store (s : State) (name : String) (value : Value) : State :=
  match s.lookupFrame? name with
  | some r => s.modifyBindings r (·.update ({ · with value }) name)
  | none => s

/-- Changes the value of a name, which has to be bound. -/
def assign (s : State) (name : String) (value : Value) (span : Option Span) : Except EvalError State :=
  s.unlessFault (s.assignFault? name span) (·.store name value)

/-- The binding of a global name. -/
def global? (s : State) (name : String) : Option Binding := (s.frame .global).bindings.get? name

/-! ## Calls -/

/-- Records a call. -/
def pushCall (s : State) (call : CallBoundary) : State := { s with calls := call :: s.calls }

/-- Forgets the innermost call. -/
def popCall (s : State) : State := { s with calls := s.calls.tail }

/-- The number of calls in progress. -/
def callDepth (s : State) : Nat := s.calls.length

/-! ## Steps -/

/-- A node is entered. -/
def enterNode (s : State) (node : NodeSummary) : State :=
  { s with nodes := node :: s.nodes, steps := s.steps + 1 }

/-- The innermost node is left. -/
def leaveNode (s : State) : State := { s with nodes := s.nodes.tail, steps := s.steps + 1 }

/-- The number of nodes being visited. -/
def nodeDepth (s : State) : Nat := s.nodes.length

/-! ## Output and errors -/

/-- Adds to the output. -/
def write (s : State) (text : String) : State := { s with output := s.output ++ text }

/-- Forgets the output. -/
def clearOutput (s : State) : State := { s with output := "" }

/-- Records an error and goes back to the global frame. -/
def recover (s : State) (e : EvalError) : State :=
  let s := { s with errors := s.errors.push e }.unwind
  { s with nodes := [] }

/-- Makes ready for an evaluation: whatever a halted one left behind goes. -/
def beginEvaluation (s : State) : State :=
  { s.unwind with steps := 0, nodes := [], lastEvent := none }

end State

/-- The depth of an event: that of its node among the nodes being visited. -/
def Event.depth (e : Event) (s : State) : Nat :=
  match e with
  | .enter _ => s.nodeDepth
  | .exit _ => s.nodeDepth + 1

end MiniC
