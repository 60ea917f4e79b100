import Mathlib.Logic.Relation
import MiniC.Proofs.History

/-!
# Trees of visits

An evaluation visits nodes, and the visit of a node visits its parts. A noted evaluation does
what the evaluation does (`Eval.keeping_notedVisit`) and also puts together the tree of these
visits, with the state in which each begins and with how it ends.
-/

namespace MiniC
variable {σ : Type}

/-- The visit of a node: the state in which it begins, the visits that it makes of parts, in
    their order, and how it ends. -/
structure Visited where
  node : Node
  tag : FrameTag
  start : State
  parts : List Visited
  ended : Except Interrupt Completion

/-- A visit is made in the course of another one. -/
def Visited.Within (P V : Visited) : Prop := Relation.ReflTransGen (fun V P : Visited => P ∈ V.parts) V P

/-- The observer that decides as another one does, beside the visits that are noted. -/
def Observer.besideVisits (o : Observer σ) : Observer (σ × List Visited) :=
  ⟨fun w e s => let (next, action) := o.onStep w.1 e s; ((next, w.2), action)⟩

theorem Observer.besideVisits_onStep (o : Observer σ) (w : σ × List Visited) (e : Event) (s : State) :
    o.besideVisits.onStep w e s = (((o.onStep w.1 e s).1, w.2), (o.onStep w.1 e s).2) := rfl

theorem Observer.widens_besideVisits (o : Observer σ) : o.Widens o.besideVisits :=
  fun _ seen _ _ _ => ⟨seen, rfl, trivial⟩

namespace Context

/-- The context of evaluations whose visits are noted. -/
def besideVisits (ctx : Context σ) : Context (σ × List Visited) := ⟨ctx.settings, ctx.observer.besideVisits⟩

end Context

namespace Eval

/-! ## Noting visits -/

/-- Notes what is evaluated as the visit of a node. The visits that were noted before are set
    aside, so that those of its parts are found apart. -/
def noting (n : Node) (tag : FrameTag) (x : Eval (σ × List Visited) Completion) : Eval (σ × List Visited) Completion :=
  fun m =>
    let (ended, after) := runOn x ⟨m.state, (m.watch.1, [])⟩
    let after := ⟨after.state, (after.watch.1, m.watch.2 ++ [⟨n, tag, m.state, after.watch.2, ended⟩])⟩
    match ended with
    | .ok c => .ok c after
    | .error i => .error i after

/-- Visits a node with so much fuel, and notes that visit. -/
def notedVisit (ctx : Context σ) : Nat → Node → FrameTag → Eval (σ × List Visited) Completion
  | 0, n, tag => noting n tag (throw .outOfFuel)
  | fuel + 1, n, tag => noting n tag do
    enter ctx.besideVisits n.summary
    let c ← byForm ctx.settings ⟨notedVisit ctx fuel, fuel⟩ n tag
    exit ctx.besideVisits n.summary
    pure c

/-- The visitor with so much fuel that notes its visits. -/
def notedVisitor (ctx : Context σ) (fuel : Nat) : Visitor (σ × List Visited) := ⟨notedVisit ctx fuel, fuel⟩

theorem runOn_noting (n : Node) (tag : FrameTag) (x : Eval (σ × List Visited) Completion) (m : Machine (σ × List Visited)) :
    runOn (noting n tag x) m =
      let (ended, after) := runOn x ⟨m.state, (m.watch.1, [])⟩
      (ended, ⟨after.state, (after.watch.1, m.watch.2 ++ [⟨n, tag, m.state, after.watch.2, ended⟩])⟩) := by
  unfold noting runOn
  dsimp only
  cases x ⟨m.state, (m.watch.1, [])⟩ with
  | ok c after => rfl
  | error i after => rfl

/-! ## Noting is harmless -/

theorem Keeping.noting {x : Eval σ Completion} {y : Eval (σ × List Visited) Completion} (n : Node) (tag : FrameTag)
    (h : Keeping x y) : Keeping x (noting n tag y) := by
  intro s w seen _
  obtain ⟨parts, same⟩ := h.outcome s w []
  rw [runOn_noting, same]
  exact ⟨_, rfl, trivial⟩

/-- A noted visit does what the visit does. -/
theorem keeping_notedVisit (ctx : Context σ) : ∀ (fuel : Nat) (n : Node) (tag : FrameTag),
    Keeping (visit ctx fuel n tag) (notedVisit ctx fuel n tag)
  | 0, n, tag => .noting n tag (.stop _)
  | fuel + 1, n, tag => by
    have widens := ctx.observer.widens_besideVisits
    have L := Keeping.lockstep widens
    have V : Congruence.Visitors Keeping Keeping (visitor ctx fuel) (notedVisitor ctx fuel) :=
      L.visitorsOf (fun n tag _ => keeping_notedVisit ctx fuel n tag) rfl
    exact .noting n tag (.bracket Keeping.undisturbed widens n.summary (L.byForm V n trivial))

/-- A program whose visits are noted does what the program does. -/
theorem keeping_program (ctx : Context σ) (fuel : Nat) (p : Program) :
    Keeping (program ctx (visitor ctx fuel) p) (program ctx.besideVisits (notedVisitor ctx fuel) p) := by
  have widens := ctx.observer.widens_besideVisits
  have L := Keeping.lockstep widens
  have V : Congruence.Visitors Keeping Keeping (visitor ctx fuel) (notedVisitor ctx fuel) :=
    L.visitorsOf (fun n tag _ => keeping_notedVisit ctx fuel n tag) rfl
  rw [program_eq, program_eq]
  exact .bracket Keeping.undisturbed widens p.summary (L.toCongruence.inside V p rfl)

end Eval
end MiniC
