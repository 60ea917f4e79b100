import MiniC.Tree.Basic

/-!
# Events

Every visit of a node is announced twice, when it is entered and when it is left.
-/

namespace MiniC

/-- A node as far as events show it. -/
structure NodeSummary where
  label : Label
  loc : Option Span
deriving DecidableEq, Repr

/-- The summary of a node. -/
def Node.summary (n : Node) : NodeSummary := ⟨n.label, n.loc⟩

/-- The summary of a program. -/
def Program.summary (p : Program) : NodeSummary := ⟨.program, p.loc⟩

/-- A point at which an evaluation can be suspended. -/
inductive Event where
  | enter (node : NodeSummary)
  | exit (node : NodeSummary)
deriving DecidableEq, Repr

namespace Event

/-- The node of an event. -/
def node : Event → NodeSummary
  | enter node | exit node => node

/-- Whether a node is entered. -/
def isEnter : Event → Bool
  | enter _ => true
  | exit _ => false

end Event
end MiniC
