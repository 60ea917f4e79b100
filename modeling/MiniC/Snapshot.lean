import MiniC.State

/-!
# Snapshots

A snapshot shows a state at a suspension point, or at the end of a run, with the
values of all variables written out.
-/

namespace MiniC

/-- A binding with its value written out, if the text of it has an end. -/
structure BindingView where
  name : String
  kind : Kind
  shown : Option String

/-- A frame of the chain, its bindings in the order of their names. -/
structure FrameView where
  number : Nat
  tag : FrameTag
  bindings : List BindingView

/-- A view of a state. The frames are those of the chain, the global one first;
    the nodes are those being visited, the innermost first. The result, if there
    is one, refers to the memory of the snapshot, which is empty if there is none. -/
structure Snapshot where
  step : Nat := 0
  event : Option Event := none
  nodes : List NodeSummary := []
  frames : List FrameView := []
  callDepth : Nat := 0
  errors : List EvalError := []
  output : String := ""
  result : Option Value := none
  finished : Bool := false
  memory : Memory := {}

/-- The view of a frame. -/
def State.frameView (s : State) (r : FrameRef) : FrameView :=
  let frame := s.frame r
  let views := frame.bindings.map fun (name, binding) =>
    (⟨name, binding.kind, s.memory.show? binding.value⟩ : BindingView)
  ⟨r.number, frame.tag, views.mergeSort (·.name ≤ ·.name)⟩

namespace Snapshot

/-- The snapshot of a state; with an outcome it is that of a finished run. -/
def capture (s : State) (outcome : Option (Option Value)) : Snapshot where
  step := s.steps
  event := s.lastEvent
  nodes := s.nodes
  frames := s.chain.reverse.map s.frameView
  callDepth := s.callDepth
  errors := s.errors.toList
  output := s.output
  result := outcome.join
  finished := outcome.isSome
  memory := if outcome.join.isSome then s.memory else {}

/-- The depth of the node at which the snapshot was taken. -/
def depth (s : Snapshot) : Nat :=
  match s.event with
  | some (.exit _) => s.nodes.length + 1
  | _ => s.nodes.length

/-- The binding of a name in the innermost frame of the chain that has one. -/
def binding? (s : Snapshot) (name : String) : Option BindingView :=
  (s.frames.reverse.flatMap (·.bindings)).find? (·.name == name)

end Snapshot
end MiniC
