import Mathlib.Logic.Relation
import MiniC.Proofs.Confinement

/-!
# The scopes of declarations

Whatever is evaluated declares its variables in the frame that is on top when it begins, or in
frames that are made for it, and its functions in the global frame. So a strict evaluation
leaves the names of all other frames alone (`State.declarations_scoped`). Thunks would bring
back frames from further down.
-/

namespace MiniC

/-! ## Changes of bindings -/

namespace Bindings

/-- The names of bindings with their kinds, in the order in which they were declared. -/
def kinds (b : Bindings) : List (String × Kind) := b.map fun item => (item.1, item.2.kind)

/-- A change of the bindings of a frame: an assignment, the declaration of a variable or of a
    function. A function takes the place of an earlier one. -/
inductive Change (declares defines : Prop) : Bindings → Bindings → Prop
  | assign {b : Bindings} (name : String) (v : Value) : Change declares defines b (b.update ({ · with value := v }) name)
  | declare {b : Bindings} {name : String} (allowed : declares) (kind : Kind) (v : Value) (free : b.get? name = none) :
      Change declares defines b (b.insert name ⟨kind, v⟩)
  | define {b : Bindings} {id : Node} {name : String} {kind : Kind} (allowed : defines) (c : Closure)
      (declared : id.declared = .ok (name, kind))
      (replaces : b.get? name = none ∨ ∃ old before, b.get? name = some ⟨old, .closure before⟩) :
      Change declares defines b (b.insert name ⟨kind, .closure c⟩)

/-- Changes one after the other. -/
abbrev Evolves (declares defines : Prop) : Bindings → Bindings → Prop := Relation.ReflTransGen (Change declares defines)

variable {declares defines : Prop} {b b' : Bindings}

theorem Evolves.mono {declares' defines' : Prop} (h : Evolves declares defines b b') (more : declares → declares')
    (more' : defines → defines') : Evolves declares' defines' b b' := by
  refine Relation.ReflTransGen.mono (fun b b' change => ?_) _ _ h
  cases change with
  | assign name v => exact .assign name v
  | declare allowed kind v free => exact .declare (more allowed) kind v free
  | define allowed c declared replaces => exact .define (more' allowed) c declared replaces

/-! ## Kinds -/

end Bindings

/-! ## Changes of states -/

namespace State

/-- What an evaluation without thunks does to the frames that are on the chain when it begins:
    variables are declared in the one on top, and functions in the global one. -/
def Scoped (s s' : State) : Prop :=
  ∀ r ∈ s.chain, Bindings.Evolves (r = s.top) (r = .global) (s.frame r).bindings (s'.frame r).bindings

namespace Scoped
variable {s s₁ s' : State}

theorem still (same : ∀ r ∈ s.chain, s'.frame r = s.frame r) : s.Scoped s' := fun r member => by
  rw [same r member]

theorem trans (h : s.Scoped s₁) (stack : s₁.stack = s.stack) (h' : s₁.Scoped s') : s.Scoped s' := fun r member => by
  have after := h' r (by rwa [chain, stack])
  rw [top, stack] at after
  exact (h r member).trans after

/-- The bindings of one frame change. -/
theorem modifyBindings (L : s.Lexical) {n : Nat} {f : Bindings → Bindings}
    (change : Bindings.Change (FrameRef.numbered n = s.top) (FrameRef.numbered n = .global) (s.frame (.numbered n)).bindings
      (f (s.frame (.numbered n)).bindings)) : s.Scoped (s.modifyBindings (.numbered n) f) := fun r member => by
  obtain ⟨k, -, rfl⟩ := L.inside_of_mem L.stacked r member
  rw [frame_modifyBindings]
  split
  · rename_i here
    obtain ⟨rfl, -⟩ := here
    exact .single change
  · exact .refl

theorem declare (L : s.Lexical) {name : String} (free : s.get? s.top name = none) (kind : Kind) (v : Value) :
    s.Scoped (s.bind s.top name ⟨kind, v⟩) := by
  obtain ⟨n, inside, top⟩ := L.top_inside
  rw [top] at free ⊢
  exact .modifyBindings L (.declare top.symm kind v free)

theorem store (L : s.Lexical) (name : String) (v : Value) : s.Scoped (s.store name v) := by
  unfold State.store
  split
  · rename_i r found
    obtain ⟨-, numbered⟩ := L.numbered_of_mem_scope (List.mem_of_find?_eq_some found)
    rw [numbered]
    exact .modifyBindings L (.assign name v)
  · exact .still fun _ _ => rfl

/-- What happens in a frame that is made for it declares nothing in the frames below, but for
    functions. -/
theorem enclosed {o : State} (L : s.Lexical) (fresh : o.stack = .numbered s.frames.size :: s.stack)
    (old : ∀ n < s.frames.size, o.frame (.numbered n) = s.frame (.numbered n)) (inner : o.Scoped s₁) : s.Scoped s₁ :=
  fun r member => by
  obtain ⟨n, small, rfl⟩ := L.inside_of_mem L.stacked r member
  have within := inner (.numbered n) (by rw [chain, fresh]; exact List.mem_cons_of_mem _ member)
  rw [old n small, top, fresh] at within
  refine within.mono (fun same => ?_) id
  exact absurd (FrameRef.numbered.inj same) (Nat.ne_of_lt small)

theorem closed (h : s.Scoped s₁) (L : s₁.Lexical) {r : FrameRef} (stack : s₁.stack = r :: s.stack) : s.Scoped s₁.dropTop :=
  fun q member => by
  rw [frame_dropTop_of_chain L (by rwa [chain, dropTop_stack, stack])]
  exact h q member

end Scoped
end State

/-! ## Strict evaluations -/

section strict
variable {law : Form → Bool} {settings : Settings} {b : Bool} {s s' : State} {past log : Log}

theorem State.no_thunk_waits (none : s.memory.thunks.size = 0) {t : ThunkRef} (waits : (s.memory.thunk t).phase = .pending) :
    False := by
  have inside : t.index < s.memory.thunks.size := Memory.lt_of_phase fun v forced => nomatch waits.symm.trans forced
  omega

theorem Act.scoped (action : Act law settings b past s s') (L : s.Lexical) : s.Scoped s' := by
  cases action with
  | write | newArray | newClosure | delay => exact .still fun r _ => by cases r <;> rfl
  | declare free | declareLazy free => exact .declare L free _ _
  | @declareArray _ _ _ _ name kind elements permitted among sized declared free settled fits =>
    intro r member
    obtain ⟨n, -, top⟩ := L.top_inside
    have same : (State.bind { s with memory := (s.memory.newArray elements).2 } s.top name
        ⟨kind.pointerTo, .array (s.memory.newArray elements).1⟩).frame r =
        (s.bind s.top name ⟨kind.pointerTo, .array (s.memory.newArray elements).1⟩).frame r := by
      rw [top]
      cases r <;> rfl
    rw [same]
    exact State.Scoped.declare L free _ _ r member
  | declareFunction permitted declared code replaces => exact .modifyBindings L (.define rfl _ declared replaces)

theorem Passage.scoped (passage : Passage law settings b past s log s') (strict : settings.strategy = .strict)
    (h : s.Proper law past) (none : s.memory.thunks.size = 0) : s.Scoped s' := by
  induction passage with
  | nil => exact .still fun _ _ => rfl
  | @append _ past s s₁ s₂ log more first second ih ih' =>
    have size : s₁.memory.thunks.size = s.memory.thunks.size := (first.along (State.equals_respected strict) h).whole
    exact (ih h none).trans first.control.1 (ih' (first.proper h) (size.trans none))
  | calm inner ih => exact ih h none
  | act action => exact action.scoped h.lexical
  | @visit _ _ s s₁ _ n may inner ih =>
    have inside : s.Scoped s₁ := ih (h.entering n) none
    exact inside.trans inner.control.1 (.still fun r _ => by cases r <;> rfl)
  | @frame _ _ _ s s₁ _ tag inner ih =>
    have pushed := h.pushInside tag (.inl rfl)
    have inside := State.Scoped.enclosed h.lexical rfl (fun n => State.frame_pushInside_of_lt tag s.top) (ih pushed none)
    exact inside.closed (inner.proper pushed).lexical inner.control.1
  | @call _ _ _ s s₁ _ name may inner ih =>
    have called := h.calling name
    have inside := State.Scoped.enclosed h.lexical rfl (fun n => State.frame_pushInside_of_lt (.call name) .global) (ih called none)
    intro r member
    have after := inside.closed (inner.proper called).lexical inner.control.1 r member
    cases r <;> exact after
  | thunk waits seen inner settled fits ih => exact (State.no_thunk_waits none waits).elim
  | store found inner between bound settled fits ih =>
    exact (ih h none).trans inner.control.1 (.store (inner.proper h).lexical _ _)
  | storeElement inner settled ih => exact (ih h none).trans inner.control.1 (.still fun r _ => by cases r <;> rfl)

theorem Broken.scoped (broken : Broken law settings past s log s') (strict : settings.strategy = .strict)
    (h : s.Proper law past) (none : s.memory.thunks.size = 0) : s.Scoped s' := by
  induction broken with
  | here => exact .still fun _ _ => rfl
  | @after _ past s s₁ s₂ log more first second ih =>
    have size : s₁.memory.thunks.size = s.memory.thunks.size := (first.along (State.equals_respected strict) h).whole
    exact (first.scoped strict h none).trans first.control.1 (ih (first.proper h) (size.trans none))
  | refused n limit reached beyond => exact .still fun r _ => by cases r <;> rfl
  | @visit _ s s₁ _ n may inner ih =>
    have inside : s.Scoped s₁ := ih (h.entering n) none
    exact inside
  | @frame _ s s₁ _ tag inner ih =>
    exact .enclosed h.lexical rfl (fun n => State.frame_pushInside_of_lt tag s.top) (ih (h.pushInside tag (.inl rfl)) none)
  | @call _ s s₁ _ name may inner ih =>
    exact .enclosed h.lexical rfl (fun n => State.frame_pushInside_of_lt (.call name) .global) (ih (h.calling name) none)
  | thunk waits seen inner ih => exact (State.no_thunk_waits none waits).elim

end strict

namespace State
variable {σ : Type}

/-- A visit from a proper state goes along a passage or part of one, whether it succeeds or not. -/
theorem Proper.visit_goes {s : State} {past : Log} (h : s.Proper (fun _ => true) past) (ctx : Context σ) (fuel : Nat)
    (n : Node) (tag : FrameTag) (w : σ) :
    let s' := (Eval.runOn ((Eval.visitor ctx fuel).visit n tag) ⟨s, w⟩).2.state
    ∃ log, Passage (fun _ => true) ctx.settings true past s log s' ∨ Broken (fun _ => true) ctx.settings past s log s' := by
  have V : Eval.TracesVisits (fun _ => true) ctx (Eval.visitor ctx fuel) := Eval.Traces.visit lenient_true fuel
  have done := Eval.Traces.visited V (.inside (n.all_of_forall fun _ => rfl)) tag past ⟨s, w⟩ h trivial
  dsimp only
  generalize Eval.runOn ((Eval.visitor ctx fuel).visit n tag) ⟨s, w⟩ = ended at done ⊢
  obtain ⟨⟨i⟩ | ⟨c⟩, m⟩ := ended
  · obtain ⟨log, broken, -⟩ := done
    exact ⟨log, .inr broken⟩
  · obtain ⟨log, passage, -⟩ := done
    exact ⟨log, .inl passage⟩

/-- States that strict evaluations reach: one that is seen while programs are run one after the
    other, the one in which the visit of a node begins whose entry is seen, and one in which a
    visit from such a state ends, whether it succeeds or not. -/
inductive StrictlyReached : State → Prop
  | seen {tasks : List Task} {s : State} (strict : ∀ t ∈ tasks, t.settings.strategy = .strict)
      (member : s ∈ seeded.history tasks) : StrictlyReached s
  | begins {n : NodeSummary} {s : State} (entered : StrictlyReached (s.entering n)) : StrictlyReached s
  | visited {σ : Type} {ctx : Context σ} {s : State} (before : StrictlyReached s) (strict : ctx.settings.strategy = .strict)
      (fuel : Nat) (n : Node) (tag : FrameTag) (w : σ) :
      StrictlyReached (Eval.runOn ((Eval.visitor ctx fuel).visit n tag) ⟨s, w⟩).2.state

theorem StrictlyReached.proper {s : State} (h : s.StrictlyReached) :
    (∃ past, s.Proper (fun _ => true) past) ∧ s.memory.thunks.size = 0 := by
  have start := proper_seeded fun _ => true
  induction h with
  | @seen tasks s strict member =>
    have code : Permitted (fun _ => true) tasks := fun t _ n _ => n.all_of_forall fun _ => rfl
    exact ⟨start.history lenient_true code s member, ((thunks_confined tasks).2.2 strict s member).1⟩
  | @begins n s entered ih =>
    obtain ⟨⟨past, h⟩, none⟩ := ih
    exact ⟨⟨past, h.restack rfl rfl h.stacked⟩, none⟩
  | @visited σ ctx s before strict fuel n tag w ih =>
    obtain ⟨⟨past, h⟩, none⟩ := ih
    obtain ⟨log, passage | broken⟩ := h.visit_goes ctx fuel n tag w
    · exact ⟨⟨_, passage.proper h⟩, Eq.trans (passage.along (equals_respected strict) h).whole none⟩
    · exact ⟨⟨_, broken.proper h⟩, Eq.trans (broken.along (equals_respected strict) h).whole none⟩

end State
end MiniC
