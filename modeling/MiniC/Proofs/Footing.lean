import Mathlib.Data.List.Find
import MiniC.Proofs.Texts
import MiniC.Proofs.Tracing

/-!
# The same evaluation from two states

Two states may differ in frames that an evaluation does not see. If they agree in the
frames that are near to it, in the memory and in the output, then it does the same from
both (`Eval.Follows`): it ends the same way, agrees with itself in what it leaves, and
leaves what is not near alone. A thunk may lie in a frame that is not near; so the first
evaluation is watched by an observer that halts whenever such a frame is on top.
-/

namespace MiniC
variable {σ τ α β : Type}

/-! ## Two states -/

/-- States that agree in the global frame, the memory, the output and the number of frames. -/
structure State.Accords (s t : State) : Prop where
  memory : s.memory = t.memory
  outermost : s.frame .global = t.frame .global
  size : s.frames.size = t.frames.size
  output : s.output = t.output

namespace State.Accords
variable {s t u : State}

theorem symm (h : s.Accords t) : t.Accords s := ⟨h.memory.symm, h.outermost.symm, h.size.symm, h.output.symm⟩

theorem trans (h : s.Accords t) (h' : t.Accords u) : s.Accords u :=
  ⟨h.memory.trans h'.memory, h.outermost.trans h'.outermost, h.size.trans h'.size, h.output.trans h'.output⟩

theorem setPhase (h : s.Accords t) (q : ThunkRef) (phase : Phase) : (s.setPhase q phase).Accords (t.setPhase q phase) :=
  ⟨congrArg (·.setPhase q phase) h.memory, h.outermost, h.size, h.output⟩

theorem dropTop (h : s.Accords t) : s.dropTop.Accords t.dropTop := by
  refine ⟨?_, ?_, ?_, ?_⟩
  · rw [dropTop_memory, dropTop_memory, h.memory]
  · rw [global_dropTop, global_dropTop, h.outermost]
  · rw [frames_dropTop, frames_dropTop, h.size]
  · rw [dropTop_output, dropTop_output, h.output]

end State.Accords

/-- Two states from which the same is to be evaluated, and the frames that are near to it:
    the global frame, the one on top and all that are still to be made. Where steps are
    limited they have to count. The first evaluation may be halted if that is said so. -/
structure Footing where
  settings : Settings
  left : State
  right : State
  near : FrameRef → Prop
  counts : Prop
  halts : Prop
  limited : settings.maxSteps ≠ none → counts
  outermost : near .global
  fresh (n : Nat) : left.frames.size ≤ n → near (.numbered n)
  inside : near left.top
  top : left.top = right.top
  held (r : FrameRef) : near r → r.number ≠ globalNumber →
    left.stack.any (·.number == r.number) = right.stack.any (·.number == r.number)
  depth : left.calls.length = right.calls.length

namespace Footing

/-- What two evaluations have in common that have come as far as the other: near frames are
    the same, and lie inside near ones; all others are as they were. -/
structure Agree (F : Footing) (s t : State) : Prop where
  memory : s.memory = t.memory
  output : s.output = t.output
  steps : F.counts → s.steps = t.steps
  frames : s.frames.size = t.frames.size
  detached : s.detached.size = t.detached.size
  grown : F.left.frames.size ≤ s.frames.size
  same (r : FrameRef) : F.near r → s.frame r = t.frame r
  closed (r : FrameRef) : F.near r → ∀ q ∈ (s.frame r).around, F.near q
  apart (r : FrameRef) : ¬ F.near r → s.frame r = F.left.frame r ∧ t.frame r = F.right.frame r
  errors : s.errors = F.left.errors ∧ t.errors = F.right.errors

/-- The same near frames are on top of both stacks, and the same calls on top of the others. -/
structure At (F : Footing) (above : List FrameRef) (made : List CallBoundary) (s t : State) : Prop extends F.Agree s t where
  nearby : ∀ r ∈ above, F.near r
  stack : s.stack = above ++ F.left.stack
  stack' : t.stack = above ++ F.right.stack
  calls : s.calls = made ++ F.left.calls
  calls' : t.calls = made ++ F.right.calls

variable {F : Footing} {above : List FrameRef} {made : List CallBoundary} {s t : State}

/-! ## What is read -/

namespace At

theorem top_eq (h : F.At above made s t) : s.top = t.top ∧ F.near s.top := by
  unfold State.top
  rw [h.stack, h.stack']
  cases above with
  | nil => exact ⟨F.top, F.inside⟩
  | cons r rest => exact ⟨rfl, h.nearby r List.mem_cons_self⟩

theorem scope_eq (h : F.At above made s t) : s.scope = t.scope ∧ ∀ r ∈ s.scope, F.near r := by
  obtain ⟨top, near⟩ := h.top_eq
  unfold State.scope
  rw [← top, h.same s.top near]
  exact ⟨rfl, List.forall_mem_cons.mpr ⟨near, h.same s.top near ▸ h.closed s.top near⟩⟩

/-- A name is found in a near frame. -/
theorem lookupFrame_eq (h : F.At above made s t) (name : String) :
    s.lookupFrame? name = t.lookupFrame? name ∧ ∀ r, s.lookupFrame? name = some r → F.near r := by
  obtain ⟨scope, near⟩ := h.scope_eq
  refine ⟨?_, fun r found => near r (List.mem_of_find?_eq_some found)⟩
  unfold State.lookupFrame?
  rw [← scope]
  exact List.find?_congr fun r member => by rw [h.same r (near r member)]

theorem alike (h : F.At above made s t) : s.Alike t where
  elements r := by rw [h.memory]
  lookup name span := by
    obtain ⟨same, near⟩ := h.lookupFrame_eq name
    have bound : (s.lookupFrame? name >>= fun r => (s.frame r).bindings.get? name) =
        (t.lookupFrame? name >>= fun r => (t.frame r).bindings.get? name) := by
      rw [← same]
      cases found : s.lookupFrame? name with
      | none => rfl
      | some r =>
        show (s.frame r).bindings.get? name = (t.frame r).bindings.get? name
        rw [h.same r (near r found)]
    unfold State.lookup
    rw [bound]
  global? name := by rw [State.global?, State.global?, h.same _ F.outermost]

end At

/-! ## What is changed -/

/-- The bindings of a frame change alike in states that agree in it. -/
theorem frame_modifyBindings_congr {q : FrameRef} (frames : s.frames.size = t.frames.size)
    (detached : s.detached.size = t.detached.size) (same : s.frame q = t.frame q) (r : FrameRef) (f : Bindings → Bindings) :
    (s.modifyBindings r f).frame q = (t.modifyBindings r f).frame q := by
  cases r with
  | numbered n =>
    cases q with
    | numbered k => rw [State.frame_modifyBindings, State.frame_modifyBindings, same, frames]
    | detached k => exact same
  | detached n =>
    cases q with
    | numbered k => exact same
    | detached k => rw [State.frame_modifyDetached, State.frame_modifyDetached, same, detached]

namespace Agree

/-- The bindings of a near frame may change. -/
theorem modifyBindings (h : F.Agree s t) {r : FrameRef} (near : F.near r) (f : Bindings → Bindings) :
    F.Agree (s.modifyBindings r f) (t.modifyBindings r f) where
  memory := by simp [h.memory]
  output := by cases r <;> exact h.output
  steps counts := by simp [h.steps counts]
  frames := by simp [h.frames]
  detached := by simp [h.detached]
  grown := by simpa using h.grown
  same q near := frame_modifyBindings_congr h.frames h.detached (h.same q near) r f
  closed q near p inside := h.closed q near p (by rwa [State.around_modifyBindings] at inside)
  apart q far := by
    have other : q ≠ r := fun same => far (same ▸ near)
    rw [State.frame_modifyBindings_of_ne other, State.frame_modifyBindings_of_ne other]
    exact h.apart q far
  errors := by cases r <;> exact h.errors

/-- The memory, the output and the steps may change alike, and what is not compared anyhow. -/
theorem congr {s' t' : State} (h : F.Agree s t) (memory : s'.memory = t'.memory) (output : s'.output = t'.output)
    (steps : F.counts → s'.steps = t'.steps) (left : s'.frames = s.frames ∧ s'.detached = s.detached ∧ s'.errors = s.errors)
    (right : t'.frames = t.frames ∧ t'.detached = t.detached ∧ t'.errors = t.errors) : F.Agree s' t' := by
  have frame (r : FrameRef) : s'.frame r = s.frame r ∧ t'.frame r = t.frame r := by
    cases r with
    | numbered n => simp only [State.frame, left.1, right.1, and_self]
    | detached k => simp only [State.frame, left.2.1, right.2.1, and_self]
  refine ⟨memory, output, steps, ?_, ?_, ?_, fun r near => ?_, fun r near => ?_, fun r far => ?_, ?_⟩
  · rw [left.1, right.1, h.frames]
  · rw [left.2.1, right.2.1, h.detached]
  · rw [left.1]
    exact h.grown
  · rw [(frame r).1, (frame r).2, h.same r near]
  · rw [(frame r).1]
    exact h.closed r near
  · rw [(frame r).1, (frame r).2]
    exact h.apart r far
  · rw [left.2.2, right.2.2]
    exact h.errors

theorem remember (h : F.Agree s t) (f : Memory → Memory) :
    F.Agree { s with memory := f s.memory } { t with memory := f t.memory } :=
  h.congr (congrArg f h.memory) h.output h.steps ⟨rfl, rfl, rfl⟩ ⟨rfl, rfl, rfl⟩

theorem enterNode (h : F.Agree s t) (n n' : NodeSummary) : F.Agree (s.enterNode n) (t.enterNode n') :=
  h.congr h.memory h.output (fun counts => congrArg (· + 1) (h.steps counts)) ⟨rfl, rfl, rfl⟩ ⟨rfl, rfl, rfl⟩

theorem reenter (h : F.Agree s t) (r : FrameRef) : F.Agree (s.reenter r) (t.reenter r) :=
  h.congr h.memory h.output h.steps ⟨rfl, rfl, rfl⟩ ⟨rfl, rfl, rfl⟩

/-- A frame that is pushed is near, if it lies in a near one. -/
theorem pushInside (h : F.Agree s t) (tag : FrameTag) {parent : FrameRef} (near : F.near parent) :
    F.Agree (s.pushInside tag parent).2 (t.pushInside tag parent).2 := by
  have size (s : State) := s.size_frames_pushInside tag parent
  have fresh : F.near (.numbered s.frames.size) := F.fresh _ h.grown
  have other {s : State} {r : FrameRef} (other : r ≠ .numbered s.frames.size) :
      (s.pushInside tag parent).2.frame r = s.frame r := by
    cases r with
    | detached k => rfl
    | numbered n => rw [State.frame_pushInside, if_neg fun same => other (congrArg _ same)]
  have own (s : State) : (s.pushInside tag parent).2.frame (.numbered s.frames.size) =
      ⟨tag, parent :: (s.frame parent).around, []⟩ := s.frame_pushInside_self tag parent
  refine ⟨h.memory, h.output, h.steps, ?_, h.detached, ?_, fun r near' => ?_, fun r near' => ?_, fun r far => ?_, h.errors⟩
  · rw [size, size, h.frames]
  · rw [size]
    exact Nat.le_succ_of_le h.grown
  · by_cases new : r = .numbered s.frames.size
    · rw [new, own, h.frames, own, h.same parent near]
    · rw [other new, other (h.frames ▸ new), h.same r near']
  · by_cases new : r = .numbered s.frames.size
    · rw [new, own]
      exact List.forall_mem_cons.mpr ⟨near, h.closed parent near⟩
    · rw [other new]
      exact h.closed r near'
  · have new : r ≠ .numbered s.frames.size := fun same => far (same ▸ fresh)
    rw [other new, other (h.frames ▸ new)]
    exact h.apart r far

end Agree

namespace At

theorem congr {s' t' : State} (h : F.At above made s t) (agree : F.Agree s' t')
    (left : s'.stack = s.stack ∧ s'.calls = s.calls) (right : t'.stack = t.stack ∧ t'.calls = t.calls) :
    F.At above made s' t' :=
  ⟨agree, h.nearby, left.1.trans h.stack, right.1.trans h.stack', left.2.trans h.calls, right.2.trans h.calls'⟩

theorem remember (h : F.At above made s t) (f : Memory → Memory) :
    F.At above made { s with memory := f s.memory } { t with memory := f t.memory } :=
  h.congr (h.toAgree.remember f) ⟨rfl, rfl⟩ ⟨rfl, rfl⟩

theorem write (h : F.At above made s t) (text : String) : F.At above made (s.write text) (t.write text) :=
  h.congr (h.toAgree.congr h.memory (congrArg (· ++ text) h.output) h.steps ⟨rfl, rfl, rfl⟩ ⟨rfl, rfl, rfl⟩) ⟨rfl, rfl⟩ ⟨rfl, rfl⟩

theorem modifyBindings (h : F.At above made s t) {r : FrameRef} (near : F.near r) (f : Bindings → Bindings) :
    F.At above made (s.modifyBindings r f) (t.modifyBindings r f) :=
  h.congr (h.toAgree.modifyBindings near f) ⟨by simp, by simp⟩ ⟨by simp, by simp⟩

theorem bind (h : F.At above made s t) {r : FrameRef} (near : F.near r) (name : String) (b : Binding) :
    F.At above made (s.bind r name b) (t.bind r name b) := h.modifyBindings near _

theorem store (h : F.At above made s t) (name : String) (v : Value) : F.At above made (s.store name v) (t.store name v) := by
  obtain ⟨same, near⟩ := h.lookupFrame_eq name
  unfold State.store
  rw [← same]
  cases found : s.lookupFrame? name with
  | none => exact h
  | some r => exact h.modifyBindings (near r found) _

/-- The nodes being visited and the last event are not compared. -/
theorem entering (h : F.At above made s t) (n n' : NodeSummary) : F.At above made (s.entering n) (t.entering n') :=
  h.congr (h.toAgree.congr h.memory h.output (fun counts => congrArg (· + 1) (h.steps counts)) ⟨rfl, rfl, rfl⟩ ⟨rfl, rfl, rfl⟩)
    ⟨rfl, rfl⟩ ⟨rfl, rfl⟩

theorem leaving (h : F.At above made s t) (n n' : NodeSummary) : F.At above made (s.leaving n) (t.leaving n') :=
  h.congr (h.toAgree.congr h.memory h.output (fun counts => congrArg (· + 1) (h.steps counts)) ⟨rfl, rfl, rfl⟩ ⟨rfl, rfl, rfl⟩)
    ⟨rfl, rfl⟩ ⟨rfl, rfl⟩

theorem reenter (h : F.At above made s t) {r : FrameRef} (near : F.near r) : F.At (r :: above) made (s.reenter r) (t.reenter r) :=
  ⟨h.toAgree.reenter r, List.forall_mem_cons.mpr ⟨near, h.nearby⟩, congrArg (r :: ·) h.stack, congrArg (r :: ·) h.stack', h.calls, h.calls'⟩

theorem pushInside (h : F.At above made s t) (tag : FrameTag) {parent : FrameRef} (near : F.near parent) :
    F.At (.numbered s.frames.size :: above) made (s.pushInside tag parent).2 (t.pushInside tag parent).2 :=
  ⟨h.toAgree.pushInside tag near, List.forall_mem_cons.mpr ⟨F.fresh _ h.grown, h.nearby⟩,
    congrArg (_ :: ·) h.stack, by rw [h.frames]; exact congrArg (_ :: ·) h.stack', h.calls, h.calls'⟩

theorem push (h : F.At above made s t) (tag : FrameTag) :
    F.At (.numbered s.frames.size :: above) made (s.push tag).2 (t.push tag).2 := by
  unfold State.push
  rw [← h.top_eq.1]
  exact h.pushInside tag h.top_eq.2

theorem calling (h : F.At above made s t) (name : String) :
    F.At (.numbered s.frames.size :: above) (⟨name, s.top.number, s.frames.size⟩ :: made) (s.calling name) (t.calling name) := by
  have pushed := h.pushInside (.call name) F.outermost
  refine ⟨pushed.toAgree.congr pushed.memory pushed.output pushed.steps ⟨rfl, rfl, rfl⟩ ⟨rfl, rfl, rfl⟩, pushed.nearby, pushed.stack,
    pushed.stack', congrArg (_ :: ·) h.calls, ?_⟩
  rw [h.frames, h.top_eq.1]
  exact congrArg (_ :: ·) h.calls'

theorem popCall {call : CallBoundary} (h : F.At above (call :: made) s t) : F.At above made s.popCall t.popCall := by
  refine ⟨h.toAgree.congr h.memory h.output h.steps ⟨rfl, rfl, rfl⟩ ⟨rfl, rfl, rfl⟩, h.nearby, h.stack, h.stack', ?_, ?_⟩
  · show s.calls.tail = _
    rw [h.calls]
    rfl
  · show t.calls.tail = _
    rw [h.calls']
    rfl

/-- The frame on top goes on both sides alike, since what lies under it holds the same near
    frames. -/
theorem dropTop {r : FrameRef} (h : F.At (r :: above) made s t) : F.At above made s.dropTop t.dropTop := by
  obtain ⟨near, nearby⟩ := List.forall_mem_cons.mp h.nearby
  have agree : F.Agree { s with stack := above ++ F.left.stack } { t with stack := above ++ F.right.stack } :=
    h.toAgree.congr h.memory h.output h.steps ⟨rfl, rfl, rfl⟩ ⟨rfl, rfl, rfl⟩
  have cleared : F.Agree s.dropTop t.dropTop := by
    unfold State.dropTop State.clearIfGone
    rw [h.stack, h.stack']
    dsimp only [List.cons_append]
    by_cases outermost : r.number = globalNumber
    · rw [if_pos (.inl outermost), if_pos (.inl outermost)]
      exact agree
    · rw [List.any_append, List.any_append, F.held r near outermost]
      split
      · exact agree
      · exact agree.modifyBindings near _
  refine ⟨cleared, nearby, ?_, ?_, ?_, ?_⟩
  · rw [State.dropTop_stack, h.stack]
    rfl
  · rw [State.dropTop_stack, h.stack']
    rfl
  · rw [State.dropTop_calls, h.calls]
  · rw [State.dropTop_calls, h.calls']

theorem popFault_eq {r : FrameRef} (h : F.At (r :: above) made s t) (expected : Nat) :
    s.popFault? expected = t.popFault? expected := by
  unfold State.popFault?
  rw [h.stack, h.stack']
  rfl

theorem declareFault_eq (h : F.At above made s t) {r : FrameRef} (near : F.near r) (name : String) (span : Option Span) :
    s.declareFault? r name span = t.declareFault? r name span := by
  unfold State.declareFault?
  rw [h.same r near]

theorem assignFault_eq (h : F.At above made s t) (name : String) (span : Option Span) :
    s.assignFault? name span = t.assignFault? name span := by
  unfold State.assignFault?
  rw [(h.lookupFrame_eq name).1]

theorem callDepth_eq (h : F.At above made s t) : s.callDepth = t.callDepth := by
  unfold State.callDepth
  rw [h.calls, h.calls', List.length_append, List.length_append, F.depth]

end At

theorem Agree.accords (h : F.Agree s t) : s.Accords t := ⟨h.memory, h.same _ F.outermost, h.frames, h.output⟩

/-! ## How both evaluations end -/

/-- Both evaluations end the same way, unless the first one is halted by its observer; if they
    succeed they leave the stacks and the calls as they are said to be. -/
inductive Outcome (F : Footing) (above : List FrameRef) (made : List CallBoundary) :
    Except Interrupt α × Machine σ → Except Interrupt α × Machine τ → Prop
  | ok {a : α} {m : Machine σ} {m' : Machine τ} (h : F.At above made m.state m'.state) : Outcome F above made (.ok a, m) (.ok a, m')
  | error {i : Interrupt} {m : Machine σ} {m' : Machine τ} (h : F.Agree m.state m'.state) (own : i ≠ .halted) :
      Outcome F above made (.error i, m) (.error i, m')
  | halted {m : Machine σ} {ended : Except Interrupt α × Machine τ} (may : F.halts) : Outcome F above made (.error .halted, m) ended

/-- An observer that goes on only where the frame on top is near, and may halt anywhere if
    that is said so. -/
def Guarded (F : Footing) (o : Observer σ) : Prop := ∀ w e s,
  match (o.onStep w e s).2 with
  | .proceed => F.near s.top
  | .halt => F.halts

end Footing

namespace Eval

/-- The second evaluation does what the first one does, from states that meet on a footing. -/
def Follows (F : Footing) (x : Eval σ α) (y : Eval τ α) : Prop :=
  ∀ above made (m : Machine σ) (m' : Machine τ), F.At above made m.state m'.state →
    F.Outcome above made (runOn x m) (runOn y m')

/-- It does so also where some frame is re-entered first, which need not be near. -/
structure Begins (F : Footing) (x : Eval σ α) (y : Eval τ α) : Prop where
  here : Follows F x y
  elsewhere above made (m : Machine σ) (m' : Machine τ) (r : FrameRef) : F.At above made m.state m'.state →
    F.Outcome (r :: above) made (runOn x { m with state := m.state.reenter r }) (runOn y { m' with state := m'.state.reenter r })

namespace Follows
variable {F : Footing}

/-! ## Actions -/

theorem pure (a : α) : Follows (σ := σ) (τ := τ) F (pure a) (pure a) := fun _ _ _ _ h => .ok h

theorem stop {i : Interrupt} (own : i ≠ .halted) : Follows (σ := σ) (τ := τ) (α := α) F (throw i) (throw i) :=
  fun _ _ _ _ h => .error h.toAgree own

theorem bind {x : Eval σ α} {y : Eval τ α} {f : α → Eval σ β} {g : α → Eval τ β} (first : Follows F x y)
    (second : ∀ a, Follows F (f a) (g a)) : Follows F (x >>= f) (y >>= g) := by
  intro above made m m' h
  have begun := first above made m m' h
  rw [runOn_bind, runOn_bind]
  generalize runOn x m = ended at begun ⊢
  generalize runOn y m' = ended' at begun ⊢
  cases begun with
  | ok h => exact second _ above made _ _ h
  | error h own => exact .error h own
  | halted may => exact .halted may

theorem modifyGet {f : State → α × State}
    (h : ∀ above made s t, F.At above made s t → (f s).1 = (f t).1 ∧ F.At above made (f s).2 (f t).2) :
    Follows (σ := σ) (τ := τ) F (Eval.modifyGet f) (Eval.modifyGet f) := by
  intro above made m m' at_
  obtain ⟨same, left⟩ := h above made m.state m'.state at_
  show F.Outcome above made (.ok (f m.state).1, _) (.ok (f m'.state).1, _)
  rw [← same]
  exact .ok left

theorem modify {f : State → State} (h : ∀ above made s t, F.At above made s t → F.At above made (f s) (f t)) :
    Follows (σ := σ) (τ := τ) F (Eval.modify f) (Eval.modify f) :=
  modifyGet (f := fun s => ((), f s)) fun above made s t at_ => ⟨rfl, h above made s t at_⟩

/-- Memory is allocated alike. -/
theorem allocate (f : Memory → α × Memory) : Follows (σ := σ) (τ := τ) F (Eval.allocate f) (Eval.allocate f) :=
  modifyGet fun _ _ s t h => ⟨by rw [h.memory], h.remember fun m => (f m).2⟩

theorem attempt {fault? : State → Option EvalError} {change : State → State}
    (h : ∀ above made s t, F.At above made s t → fault? s = fault? t ∧ F.At above made (change s) (change t)) :
    Follows (σ := σ) (τ := τ) F (Eval.attempt fault? change) (Eval.attempt fault? change) := by
  intro above made m m' at_
  obtain ⟨same, left⟩ := h above made m.state m'.state at_
  rw [runOn_attempt, runOn_attempt, ← same]
  cases fault? m.state with
  | some e => exact .error at_.toAgree nofun
  | none => exact .ok left

theorem read {f : State → Eval σ α} {g : State → Eval τ α} (h : ∀ s t, s.Alike t → Follows F (f s) (g t)) :
    Follows F (Eval.state >>= f) (Eval.state >>= g) :=
  fun above made m m' at_ => h m.state m'.state at_.alike above made m m' at_

theorem sameValues (v w : Value) : Follows (σ := σ) (τ := τ) F (Eval.sameValues v w) (Eval.sameValues v w) := by
  intro above made m m' h
  unfold Eval.sameValues
  rw [runOn_state_bind, runOn_state_bind, ← h.memory]
  cases m.state.memory.same? v w with
  | none => exact .error h.toAgree nofun
  | some same => exact pure same above made m m' h

theorem stray (label : Label) (c : Completion) :
    Follows (σ := σ) (τ := τ) (α := α) F (Eval.stray label c) (Eval.stray label c) := by
  intro above made m m' h
  unfold Eval.stray
  rw [runOn_state_bind, runOn_state_bind, ← h.memory]
  rcases c.stray_cases label m.state.memory with ⟨shown, -, told⟩ | ⟨-, endless⟩
  · rw [told]
    exact .error h.toAgree nofun
  · rw [endless]
    exact .error h.toAgree nofun

/-- What is put off belongs to the frame on top, which is the same. -/
theorem delay (n : Node) : Follows (σ := σ) (τ := τ) F (Eval.delay n) (Eval.delay n) := by
  intro above made m m' h
  unfold Eval.delay
  rw [runOn_state_bind, runOn_state_bind, ← h.top_eq.1]
  exact bind (allocate _) (fun r => pure (Value.lazy r)) above made m m' h

/-! ## Frames, calls and thunks -/

theorem inFrame {x : Eval σ α} {y : Eval τ α} (tag : FrameTag) (h : Follows F x y) :
    Follows F (Eval.inFrame tag x) (Eval.inFrame tag y) := by
  intro above made m m' at_
  have run := h _ made { m with state := (m.state.push tag).2 } { m' with state := (m'.state.push tag).2 } (at_.push tag)
  rw [runOn_inFrame, runOn_inFrame, ← at_.frames]
  generalize runOn x _ = ended at run ⊢
  generalize runOn y _ = ended' at run ⊢
  cases run with
  | error h own => exact .error h own
  | halted may => exact .halted may
  | ok h =>
    dsimp only
    rw [← h.popFault_eq]
    split
    · exact .error h.toAgree nofun
    · exact .ok h.dropTop

/-- A call is left the same way, as it was entered. -/
theorem leaveCall {above : List FrameRef} {made : List CallBoundary} {r : FrameRef} {call : CallBoundary} (name : String)
    (n : Nat) {m : Machine σ} {m' : Machine τ} (h : F.At (r :: above) (call :: made) m.state m'.state) :
    F.Outcome above made (runOn (Eval.leaveCall name n) m) (runOn (Eval.leaveCall name n) m') := by
  have dropped := h.dropTop
  have left := dropped.popCall
  rw [runOn_leaveCall, runOn_leaveCall, ← h.top_eq.1, ← h.popFault_eq]
  split
  · exact .error h.toAgree nofun
  · split
    · exact .error h.toAgree nofun
    · dsimp only
      rw [dropped.calls, dropped.calls', List.cons_append, List.cons_append]
      dsimp only
      rw [← left.top_eq.1]
      split
      · exact .error left.toAgree nofun
      · exact .ok left

theorem inCall {x : Eval σ α} {y : Eval τ α} (name : String) (h : Follows F x y) :
    Follows F (Eval.inCall name x) (Eval.inCall name y) := by
  intro above made m m' at_
  have run := h _ _ { m with state := m.state.calling name } { m' with state := m'.state.calling name } (at_.calling name)
  rw [runOn_inCall, runOn_inCall]
  unfold State.calling at run
  rw [← at_.frames, ← at_.top_eq.1] at run ⊢
  generalize runOn x _ = ended at run ⊢
  generalize runOn y _ = ended' at run ⊢
  cases run with
  | error h own => exact .error h own
  | halted may => exact .halted may
  | ok h =>
    have left := leaveCall name m.state.frames.size h
    dsimp only
    generalize runOn (Eval.leaveCall name m.state.frames.size) _ = ended at left ⊢
    generalize runOn (Eval.leaveCall name m.state.frames.size) _ = ended' at left ⊢
    cases left with
    | error h own => exact .error h own
    | halted may => exact .halted may
    | ok h => exact .ok h

theorem checkDepth (limit : Nat) (span : Option Span) :
    Follows (σ := σ) (τ := τ) F (Eval.checkDepth limit span) (Eval.checkDepth limit span) := by
  intro above made m m' h
  rw [runOn_checkDepth, runOn_checkDepth, ← h.callDepth_eq]
  split
  · exact .error h.toAgree nofun
  · exact .ok h

/-- A thunk is computed in its own frame, on both sides in the same one. -/
theorem compute {x : Node → Eval σ Value} {y : Node → Eval τ Value} (r : ThunkRef) (h : ∀ n, Begins F (x n) (y n)) :
    Follows F (Eval.compute r x) (Eval.compute r y) := by
  intro above made m m' at_
  rw [runOn_compute, runOn_compute, ← at_.memory]
  dsimp only
  split
  · exact .ok at_
  · exact .error at_.toAgree nofun
  · rename_i phase
    have run := (h (m.state.memory.thunk r).expression).elsewhere above made { m with state := m.state.setPhase r .forcing }
      { m' with state := m'.state.setPhase r .forcing } (m.state.memory.thunk r).home (at_.remember (·.setPhase r .forcing))
    dsimp only at run
    generalize runOn (x _) _ = ended at run ⊢
    generalize runOn (y _) _ = ended' at run ⊢
    cases run with
    | error h own => exact .error (h.remember (·.setPhase r .pending)) own
    | halted may => exact .halted may
    | ok h =>
      dsimp only
      rw [← h.popFault_eq]
      split
      · exact .error h.toAgree nofun
      · exact .ok (h.dropTop.remember (·.setPhase r (.forced _)))

end Follows

/-! ## Visits -/

namespace Begins
variable {F : Footing} {o : Observer σ} {o' : Observer τ}

theorem after {x : Eval σ α} {y : Eval τ α} {f : α → Eval σ β} {g : α → Eval τ β} (first : Begins F x y)
    (second : ∀ a, Follows F (f a) (g a)) : Begins F (x >>= f) (y >>= g) := by
  refine ⟨first.here.bind second, fun above made m m' r h => ?_⟩
  have begun := first.elsewhere above made m m' r h
  rw [runOn_bind, runOn_bind]
  generalize runOn x _ = ended at begun ⊢
  generalize runOn y _ = ended' at begun ⊢
  cases begun with
  | ok h => exact second _ (r :: above) made _ _ h
  | error h own => exact .error h own
  | halted may => exact .halted may

theorem stop {i : Interrupt} (own : i ≠ .halted) : Begins (σ := σ) (τ := τ) (α := α) F (throw i) (throw i) :=
  ⟨.stop own, fun _ _ _ _ r h => .error (h.toAgree.reenter r) own⟩

section events
variable (guards : F.Guarded o) (proceeds : o'.Proceeds)
include guards proceeds

/-- Where the first observer goes on the frame on top is near. -/
theorem announced (e e' : Event) {above : List FrameRef} {made : List CallBoundary} {s t : State} (w : σ) (w' : τ)
    (h : F.near s.top → F.At above made { s with lastEvent := some e } { t with lastEvent := some e' }) :
    F.Outcome above made (runOn (suspend ⟨F.settings, o⟩ e) ⟨s, w⟩) (runOn (suspend ⟨F.settings, o'⟩ e') ⟨t, w'⟩) := by
  have goes := guards w e { s with lastEvent := some e }
  have goes' := proceeds w' e' { t with lastEvent := some e' }
  rw [runOn_suspend, runOn_suspend]
  dsimp only at goes goes' ⊢
  generalize o'.onStep w' e' _ = answer' at goes' ⊢
  generalize o.onStep w e _ = answer at goes ⊢
  obtain ⟨w₁, action⟩ := answer
  obtain ⟨w₁', _⟩ := answer'
  cases goes'
  cases action with
  | halt => exact .halted goes
  | proceed => exact .ok (h goes)

/-- Both sides make the same step, if the steps are limited. -/
theorem entered (n n' : NodeSummary) {above : List FrameRef} {made : List CallBoundary} {s t : State} (w : σ) (w' : τ)
    (agree : F.Agree s t) (h : F.near s.top → F.At above made s t) :
    F.Outcome above made (runOn (Eval.enter ⟨F.settings, o⟩ n) ⟨s, w⟩) (runOn (Eval.enter ⟨F.settings, o'⟩ n') ⟨t, w'⟩) := by
  have limits : F.settings.maxSteps.filter (· < s.steps + 1) = F.settings.maxSteps.filter (· < t.steps + 1) := by
    cases limited : F.settings.maxSteps with
    | none => rfl
    | some limit => rw [agree.steps (F.limited (by rw [limited]; nofun))]
  rw [runOn_enter, runOn_enter]
  dsimp only
  rw [← limits]
  split
  · exact .error (agree.enterNode n n') nofun
  · exact announced guards proceeds (.enter n) (.enter n') w w' fun near => (h near).entering n n'

theorem enter (n n' : NodeSummary) : Begins F (Eval.enter ⟨F.settings, o⟩ n) (Eval.enter ⟨F.settings, o'⟩ n') where
  here _ _ m m' h := entered guards proceeds n n' m.watch m'.watch h.toAgree fun _ => h
  elsewhere _ _ m m' r h := entered guards proceeds n n' m.watch m'.watch (h.toAgree.reenter r) h.reenter

theorem exit (n n' : NodeSummary) : Follows F (Eval.exit ⟨F.settings, o⟩ n) (Eval.exit ⟨F.settings, o'⟩ n') :=
  fun _ _ m m' h => announced guards proceeds (.exit n) (.exit n') m.watch m'.watch fun _ => h.leaving n n'

theorem bracket {x : Eval σ α} {y : Eval τ α} (n n' : NodeSummary) (h : Follows F x y) :
    Begins F (do Eval.enter ⟨F.settings, o⟩ n; let a ← x; Eval.exit ⟨F.settings, o⟩ n; Pure.pure a)
      (do Eval.enter ⟨F.settings, o'⟩ n'; let a ← y; Eval.exit ⟨F.settings, o'⟩ n'; Pure.pure a) :=
  (enter guards proceeds n n').after fun _ => h.bind fun a => (exit guards proceeds n n').bind fun _ => .pure a

end events

end Begins

/-- Doing the same passes through every construct. -/
theorem Follows.lockstep (F : Footing) {o : Observer σ} {o' : Observer τ} (guards : F.Guarded o) (proceeds : o'.Proceeds) :
    Lockstep ⟨F.settings, o⟩ ⟨F.settings, o'⟩ (· = ·) (Follows F) (Begins F) where
  strategy := rfl
  pure := pure
  bind := bind
  fail e := stop nofun
  stray := stray
  read := read
  sameValues := sameValues
  newArray _ := allocate _
  newClosure _ _ _ := allocate _
  delay := delay
  setElement r i v _ := modify fun _ _ _ _ h => h.remember (·.setElement r i v)
  write text := modify fun _ _ _ _ h => h.write text
  declare _ _ _ _ := attempt fun _ _ s t h => by
    rw [← h.top_eq.1]
    exact ⟨h.declareFault_eq h.top_eq.2 _ _, h.bind h.top_eq.2 _ _⟩
  declareGlobal _ _ _ _ := attempt fun _ _ s t h => ⟨h.declareFault_eq F.outermost _ _, h.bind F.outermost _ _⟩
  redefine _ _ _ := modify fun _ _ _ _ h => h.bind F.outermost _ _
  assign _ _ _ := attempt fun _ _ s t h => ⟨h.assignFault_eq _ _, h.store _ _⟩
  inFrame {_ _ _ tag} _ := inFrame tag
  inCall name span h := (checkDepth _ span).bind fun _ => h.inCall name
  compute := compute
  bracket n h := .bracket guards proceeds n n h
  after := .after
  quit := .stop nofun
  forget h := h.here
  fuels_zero h := .inl h.symm
  fuels_succ h := ⟨_, h.symm, rfl⟩

end Eval
end MiniC
