import MiniC.Proofs.Gaps
import MiniC.Proofs.Termination

/-!
# The same evaluation above further frames

Frames that lie on the stack further down are seen by an evaluation only if they are around
the frame on top. So an evaluation from a state and one from a state with further frames on
its stack do the same, with the same frame on top to begin with, up to the numbers of the
frames that they make (`Eval.Echoes`). The second one may find that it is too deep in calls.
-/

namespace MiniC
variable {σ τ α β : Type}

/-! ## Two states -/

/-- A state, and one with further frames and calls on its stacks. The numbers of these frames
    are those of the gap. -/
structure Overlay where
  gap : Gap
  left : State
  right : State
  positive : 0 < gap.base
  held (n : Nat) : right.stack.any (·.number == gap.number n) = left.stack.any (·.number == n)
  deeper : left.calls.length ≤ right.calls.length

namespace Overlay

/-- What two evaluations have in common that have come as far as the other: they leave the same
    up to the gap, and the frames in the gap as they were. -/
structure Agree (O : Overlay) (s t : State) : Prop extends O.gap.Same s t where
  detached : t.detached.size = s.detached.size
  grown : O.gap.base ≤ s.frames.size
  older (n : Nat) : n < O.gap.base → ∀ q ∈ (s.frame (.numbered n)).around, O.gap.ref q = q
  between (n : Nat) : O.gap.base ≤ n → n < O.gap.base + O.gap.size →
    t.frame (.numbered n) = O.right.frame (.numbered n)

/-- The same frames are on top of both stacks, and the same calls on top of the others. -/
structure At (O : Overlay) (above : List FrameRef) (made : List CallBoundary) (s t : State) : Prop extends O.Agree s t where
  stack : s.stack = above ++ O.left.stack
  stack' : t.stack = above.map O.gap.ref ++ O.right.stack
  calls : s.calls = made ++ O.left.calls
  calls' : t.calls = made.map O.gap.call ++ O.right.calls

variable {O : Overlay} {r : FrameRef} {above : List FrameRef} {made : List CallBoundary} {s t : State}

/-! ## What is read -/

/-- The next frame gets the number after the gap. -/
theorem Agree.fresh (h : O.Agree s t) : t.frames.size = O.gap.number s.frames.size := by
  rw [h.frames, Gap.number_of_le h.grown]

/-- Frames that are older than the gap are the same. -/
theorem Agree.old (h : O.Agree s t) {n : Nat} (inside : n < O.gap.base) : t.frame (.numbered n) = s.frame (.numbered n) := by
  rw [← Gap.ref_of_lt inside, h.frame, Gap.ref_of_lt inside, Gap.frame_eq (h.older n inside)]

theorem Agree.outermost (h : O.Agree s t) : t.frame .global = O.gap.frame (s.frame .global) := by
  rw [← h.frame, Gap.ref_global O.positive]

namespace At

theorem top_eq (h : O.At (r :: above) made s t) : s.top = r ∧ t.top = O.gap.ref r := by
  rw [State.top, State.top, h.stack, h.stack']
  exact ⟨rfl, rfl⟩

theorem scope_eq (h : O.At (r :: above) made s t) : t.scope = s.scope.map O.gap.ref := by
  obtain ⟨top, top'⟩ := h.top_eq
  unfold State.scope
  rw [top, top', h.frame]
  rfl

theorem lookupFrame_eq (h : O.At (r :: above) made s t) (name : String) :
    t.lookupFrame? name = (s.lookupFrame? name).map O.gap.ref := by
  unfold State.lookupFrame?
  rw [h.scope_eq, List.find?_map]
  refine congrArg _ (List.find?_congr fun q _ => ?_)
  rw [Function.comp, h.frame]
  rfl

theorem alike (h : O.At (r :: above) made s t) : s.Alike t where
  elements r := by rw [h.memory]; rfl
  lookup name span := by
    have bound : (t.lookupFrame? name >>= fun q => (t.frame q).bindings.get? name) =
        (s.lookupFrame? name >>= fun q => (s.frame q).bindings.get? name) := by
      rw [h.lookupFrame_eq]
      cases s.lookupFrame? name with
      | none => rfl
      | some q =>
        show (t.frame (O.gap.ref q)).bindings.get? name = (s.frame q).bindings.get? name
        rw [h.frame]
        rfl
    unfold State.lookup
    rw [bound]
  global? name := by
    rw [State.global?, State.global?, h.outermost]
    rfl

theorem thunk_eq (h : O.At above made s t) (q : ThunkRef) : t.memory.thunk q = O.gap.thunk (s.memory.thunk q) := by
  rw [h.memory, Gap.thunk_memory O.positive]

theorem declareFault_eq (h : O.At above made s t) (q : FrameRef) (name : String) (span : Option Span) :
    t.declareFault? (O.gap.ref q) name span = s.declareFault? q name span := by
  unfold State.declareFault?
  rw [h.frame]
  rfl

theorem assignFault_eq (h : O.At (r :: above) made s t) (name : String) (span : Option Span) :
    t.assignFault? name span = s.assignFault? name span := by
  unfold State.assignFault?
  rw [h.lookupFrame_eq, Option.isSome_map]

/-- A frame that was pushed or re-entered can be popped on both sides. -/
theorem popFault_eq (h : O.At (r :: above) made s t) :
    s.popFault? r.number = none ∧ t.popFault? (O.gap.ref r).number = none :=
  ⟨State.popFault?_eq_none h.stack, State.popFault?_eq_none h.stack'⟩

theorem callDepth_le (h : O.At above made s t) : s.callDepth ≤ t.callDepth := by
  unfold State.callDepth
  rw [h.calls, h.calls', List.length_append, List.length_append, List.length_map]
  exact Nat.add_le_add_left O.deeper _

end At

/-! ## What is changed -/

namespace Agree

/-- The bindings of a frame may change. -/
theorem modifyBindings (h : O.Agree s t) (r : FrameRef) (f : Bindings → Bindings) :
    O.Agree (s.modifyBindings r f) (t.modifyBindings (O.gap.ref r) f) where
  memory := by simp [h.memory]
  output := by cases r <;> exact h.output
  steps := by simp [h.steps]
  errors := by cases r <;> exact h.errors
  frames := by simp [h.frames]
  frame q := by
    by_cases here : q = r
    · subst here
      cases q with
      | numbered n =>
        have bound : O.gap.number n < t.frames.size ↔ n < s.frames.size := by
          rw [h.frames, Gap.number_lt h.grown]
        have same : t.frame (.numbered (O.gap.number n)) = _ := h.frame (.numbered n)
        rw [Gap.ref, State.frame_modifyBindings, State.frame_modifyBindings, same]
        simp only [true_and, bound]
        split
        · rfl
        · rfl
      | detached k =>
        have same : t.frame (.detached k) = _ := h.frame (.detached k)
        rw [Gap.ref, State.frame_modifyDetached, State.frame_modifyDetached, same, h.detached]
        simp only [true_and]
        split
        · rfl
        · rfl
    · rw [State.frame_modifyBindings_of_ne here, State.frame_modifyBindings_of_ne (mt Gap.ref_inj.mp here), h.frame]
  detached := by simp [h.detached]
  grown := by simpa using h.grown
  older n inside q member := h.older n inside q (by rwa [State.around_modifyBindings] at member)
  between n outside small := by
    have other : FrameRef.numbered n ≠ O.gap.ref r := by
      intro same
      cases r with
      | detached k => cases same
      | numbered k => exact Gap.number_ne outside small (FrameRef.numbered.inj same).symm
    rw [State.frame_modifyBindings_of_ne other]
    exact h.between n outside small

/-- The memory, the output and the steps may change alike, and what is not compared anyhow. -/
theorem congr {s' t' : State} (h : O.Agree s t) (memory : t'.memory = O.gap.memory s'.memory) (output : t'.output = s'.output)
    (steps : t'.steps = s'.steps) (left : s'.frames = s.frames ∧ s'.detached = s.detached ∧ s'.errors = s.errors)
    (right : t'.frames = t.frames ∧ t'.detached = t.detached ∧ t'.errors = t.errors) : O.Agree s' t' := by
  have frame (r : FrameRef) : s'.frame r = s.frame r ∧ t'.frame r = t.frame r := by
    cases r with
    | numbered n => simp only [State.frame, left.1, right.1, and_self]
    | detached k => simp only [State.frame, left.2.1, right.2.1, and_self]
  refine ⟨⟨memory, output, steps, ?_, ?_, fun r => ?_⟩, ?_, ?_, fun n inside => ?_, fun n outside small => ?_⟩
  · rw [left.2.2, right.2.2, h.errors]
  · rw [left.1, right.1, h.frames]
  · rw [(frame r).1, (frame _).2, h.frame]
  · rw [left.2.1, right.2.1, h.detached]
  · rw [left.1]
    exact h.grown
  · rw [(frame _).1]
    exact h.older n inside
  · rw [(frame _).2]
    exact h.between n outside small

/-- The memory changes in a way that does not depend on homes. -/
theorem remember (h : O.Agree s t) {m m' : Memory} (same : m' = O.gap.memory m) :
    O.Agree { s with memory := m } { t with memory := m' } :=
  h.congr same h.output h.steps ⟨rfl, rfl, rfl⟩ ⟨rfl, rfl, rfl⟩

theorem setPhase (h : O.Agree s t) (r : ThunkRef) (phase : Phase) : O.Agree (s.setPhase r phase) (t.setPhase r phase) :=
  h.remember (by rw [h.memory, Gap.memory_setPhase])

theorem reenter (h : O.Agree s t) (r : FrameRef) : O.Agree (s.reenter r) (t.reenter (O.gap.ref r)) :=
  h.congr h.memory h.output h.steps ⟨rfl, rfl, rfl⟩ ⟨rfl, rfl, rfl⟩

/-- Frames that are pushed get their numbers beside the gap. -/
theorem pushInside (h : O.Agree s t) (tag : FrameTag) (parent : FrameRef) :
    O.Agree (s.pushInside tag parent).2 (t.pushInside tag (O.gap.ref parent)).2 := by
  refine ⟨⟨h.memory, h.output, h.steps, h.errors, ?_, fun r => ?_⟩, h.detached, ?_, fun n inside => ?_,
    fun n outside small => ?_⟩
  · rw [State.size_frames_pushInside, State.size_frames_pushInside, h.frames, Nat.add_right_comm]
  · cases r with
    | detached k => exact h.frame (.detached k)
    | numbered n =>
      have same : t.frame (.numbered (O.gap.number n)) = _ := h.frame (.numbered n)
      show (t.pushInside tag (O.gap.ref parent)).2.frame (.numbered (O.gap.number n)) = _
      rw [State.frame_pushInside, State.frame_pushInside, h.fresh]
      by_cases new : n = s.frames.size
      · rw [if_pos (congrArg _ new), if_pos new, h.frame]
        rfl
      · rw [if_neg (mt Gap.number_inj.mp new), if_neg new, same]
  · rw [State.size_frames_pushInside]
    exact Nat.le_succ_of_le h.grown
  · rw [State.frame_pushInside_of_lt tag parent (Nat.lt_of_lt_of_le inside h.grown)]
    exact h.older n inside
  · rw [State.frame_pushInside, if_neg]
    · exact h.between n outside small
    · rw [h.fresh]
      exact fun same => Gap.number_ne outside small same.symm

end Agree

namespace At

theorem congr {s' t' : State} (h : O.At above made s t) (agree : O.Agree s' t')
    (left : s'.stack = s.stack ∧ s'.calls = s.calls) (right : t'.stack = t.stack ∧ t'.calls = t.calls) :
    O.At above made s' t' :=
  ⟨agree, left.1.trans h.stack, right.1.trans h.stack', left.2.trans h.calls, right.2.trans h.calls'⟩

theorem remember (h : O.At above made s t) {m m' : Memory} (same : m' = O.gap.memory m) :
    O.At above made { s with memory := m } { t with memory := m' } :=
  h.congr (h.toAgree.remember same) ⟨rfl, rfl⟩ ⟨rfl, rfl⟩

theorem setPhase (h : O.At above made s t) (r : ThunkRef) (phase : Phase) :
    O.At above made (s.setPhase r phase) (t.setPhase r phase) :=
  h.congr (h.toAgree.setPhase r phase) ⟨rfl, rfl⟩ ⟨rfl, rfl⟩

theorem write (h : O.At above made s t) (text : String) : O.At above made (s.write text) (t.write text) :=
  h.congr (h.toAgree.congr h.memory (congrArg (· ++ text) h.output) h.steps ⟨rfl, rfl, rfl⟩ ⟨rfl, rfl, rfl⟩)
    ⟨rfl, rfl⟩ ⟨rfl, rfl⟩

theorem modifyBindings (h : O.At above made s t) (r : FrameRef) (f : Bindings → Bindings) :
    O.At above made (s.modifyBindings r f) (t.modifyBindings (O.gap.ref r) f) :=
  h.congr (h.toAgree.modifyBindings r f) ⟨by simp, by simp⟩ ⟨by simp, by simp⟩

theorem bindGlobal (h : O.At above made s t) (name : String) (b : Binding) :
    O.At above made (s.bind .global name b) (t.bind .global name b) := by
  have bound := h.modifyBindings .global (·.insert name b)
  rwa [Gap.ref_global O.positive] at bound

theorem store (h : O.At (r :: above) made s t) (name : String) (v : Value) :
    O.At (r :: above) made (s.store name v) (t.store name v) := by
  unfold State.store
  rw [h.lookupFrame_eq]
  cases s.lookupFrame? name with
  | none => exact h
  | some q => exact h.modifyBindings q _

theorem entering (h : O.At above made s t) (n : NodeSummary) : O.At above made (s.entering n) (t.entering n) :=
  h.congr (h.toAgree.congr h.memory h.output (congrArg (· + 1) h.steps) ⟨rfl, rfl, rfl⟩ ⟨rfl, rfl, rfl⟩)
    ⟨rfl, rfl⟩ ⟨rfl, rfl⟩

theorem leaving (h : O.At above made s t) (n : NodeSummary) : O.At above made (s.leaving n) (t.leaving n) :=
  h.congr (h.toAgree.congr h.memory h.output (congrArg (· + 1) h.steps) ⟨rfl, rfl, rfl⟩ ⟨rfl, rfl, rfl⟩)
    ⟨rfl, rfl⟩ ⟨rfl, rfl⟩

theorem reenter (h : O.At above made s t) (r : FrameRef) : O.At (r :: above) made (s.reenter r) (t.reenter (O.gap.ref r)) :=
  ⟨h.toAgree.reenter r, congrArg (r :: ·) h.stack, congrArg (_ :: ·) h.stack', h.calls, h.calls'⟩

theorem pushInside (h : O.At above made s t) (tag : FrameTag) (parent : FrameRef) :
    O.At (.numbered s.frames.size :: above) made (s.pushInside tag parent).2 (t.pushInside tag (O.gap.ref parent)).2 :=
  ⟨h.toAgree.pushInside tag parent, congrArg (_ :: ·) h.stack,
    by rw [List.map_cons, Gap.ref, ← h.fresh]; exact congrArg (_ :: ·) h.stack', h.calls, h.calls'⟩

theorem push (h : O.At (r :: above) made s t) (tag : FrameTag) :
    O.At (.numbered s.frames.size :: r :: above) made (s.push tag).2 (t.push tag).2 := by
  obtain ⟨top, top'⟩ := h.top_eq
  unfold State.push
  rw [top, top']
  exact h.pushInside tag r

theorem calling (h : O.At (r :: above) made s t) (name : String) :
    O.At (.numbered s.frames.size :: r :: above) (⟨name, s.top.number, s.frames.size⟩ :: made) (s.calling name)
      (t.calling name) := by
  have pushed := h.pushInside (.call name) .global
  rw [Gap.ref_global O.positive] at pushed
  refine ⟨pushed.toAgree.congr pushed.memory pushed.output pushed.steps ⟨rfl, rfl, rfl⟩ ⟨rfl, rfl, rfl⟩, pushed.stack,
    pushed.stack', congrArg (_ :: ·) h.calls, ?_⟩
  have same : (⟨name, t.top.number, t.frames.size⟩ : CallBoundary) = O.gap.call ⟨name, s.top.number, s.frames.size⟩ := by
    rw [Gap.call, h.fresh, h.top_eq.1, h.top_eq.2, Gap.number_ref O.positive]
  show (⟨name, t.top.number, t.frames.size⟩ : CallBoundary) :: t.calls = _
  rw [same, h.calls']
  rfl

theorem popCall {call : CallBoundary} (h : O.At above (call :: made) s t) : O.At above made s.popCall t.popCall := by
  refine ⟨h.toAgree.congr h.memory h.output h.steps ⟨rfl, rfl, rfl⟩ ⟨rfl, rfl, rfl⟩, h.stack, h.stack', ?_, ?_⟩
  · show s.calls.tail = _
    rw [h.calls]
    rfl
  · show t.calls.tail = _
    rw [h.calls']
    rfl

/-- The frame on top goes on both sides alike: the further frames do not hold it. -/
theorem dropTop (h : O.At (r :: above) made s t) : O.At above made s.dropTop t.dropTop := by
  have agree : O.Agree { s with stack := above ++ O.left.stack } { t with stack := above.map O.gap.ref ++ O.right.stack } :=
    h.toAgree.congr h.memory h.output h.steps ⟨rfl, rfl, rfl⟩ ⟨rfl, rfl, rfl⟩
  have gone : ((O.gap.ref r).number = globalNumber ∨
        (above.map O.gap.ref ++ O.right.stack).any (·.number == (O.gap.ref r).number) = true) ↔
      (r.number = globalNumber ∨ (above ++ O.left.stack).any (·.number == r.number) = true) := by
    have same (q : FrameRef) : ((O.gap.ref q).number == O.gap.number r.number) = (q.number == r.number) := by
      rw [Gap.number_ref O.positive, Bool.eq_iff_iff, beq_iff_eq, beq_iff_eq, Gap.number_inj]
    rw [Gap.number_ref O.positive, Gap.number_eq_global O.positive, List.any_append, List.any_append, O.held, List.any_map]
    simp only [Function.comp_def, same]
  have cleared : O.Agree s.dropTop t.dropTop := by
    unfold State.dropTop State.clearIfGone
    rw [h.stack, h.stack', List.map_cons]
    dsimp only [List.cons_append]
    rw [if_congr gone rfl rfl]
    split
    · exact agree
    · exact agree.modifyBindings r _
  refine ⟨cleared, ?_, ?_, ?_, ?_⟩
  · rw [State.dropTop_stack, h.stack]
    rfl
  · rw [State.dropTop_stack, h.stack']
    rfl
  · rw [State.dropTop_calls, h.calls]
  · rw [State.dropTop_calls, h.calls']

end At

/-! ## How both evaluations end -/

/-- Both evaluations end the same way, unless the second one is too deep in calls; if they
    succeed they leave the stacks and the calls as they are said to be. -/
inductive Outcome (O : Overlay) (above : List FrameRef) (made : List CallBoundary) :
    Except Interrupt α × Machine σ → Except Interrupt α × Machine τ → Prop
  | ok {a : α} {m : Machine σ} {m' : Machine τ} (h : O.At above made m.state m'.state) :
      Outcome O above made (.ok a, m) (.ok a, m')
  | error {i i' : Interrupt} {m : Machine σ} {m' : Machine τ} (h : O.Agree m.state m'.state) (alike : O.gap.Alike i i') :
      Outcome O above made (.error i, m) (.error i', m')
  | tooDeep {limit : Nat} {span : Option Span} {ended : Except Interrupt α × Machine σ} {m' : Machine τ} :
      Outcome O above made ended (.error (.error (.callDepth limit span)), m')

end Overlay

namespace Eval

/-- The second evaluation does what the first one does, from states that agree but for the
    frames in a gap, if the same frame is on top of both. -/
def Echoes (O : Overlay) (x : Eval σ α) (y : Eval τ α) : Prop :=
  ∀ r above made (m : Machine σ) (m' : Machine τ), O.At (r :: above) made m.state m'.state →
    O.Outcome (r :: above) made (runOn x m) (runOn y m')

namespace Echoes
variable {O : Overlay}

/-! ## Actions -/

theorem pure (a : α) : Echoes (σ := σ) (τ := τ) O (pure a) (pure a) := fun _ _ _ _ _ h => .ok h

theorem stop (i : Interrupt) : Echoes (σ := σ) (τ := τ) (α := α) O (throw i) (throw i) :=
  fun _ _ _ _ _ h => .error h.toAgree (.same i)

theorem bind {x : Eval σ α} {y : Eval τ α} {f : α → Eval σ β} {g : α → Eval τ β} (first : Echoes O x y)
    (second : ∀ a, Echoes O (f a) (g a)) : Echoes O (x >>= f) (y >>= g) := by
  intro r above made m m' h
  have begun := first r above made m m' h
  rw [runOn_bind, runOn_bind]
  generalize runOn x m = ended at begun ⊢
  generalize runOn y m' = ended' at begun ⊢
  cases begun with
  | ok h => exact second _ r above made _ _ h
  | error h alike => exact .error h alike
  | tooDeep => exact .tooDeep

theorem modifyGet {f : State → α × State} (h : ∀ r above made s t, O.At (r :: above) made s t →
      (f s).1 = (f t).1 ∧ O.At (r :: above) made (f s).2 (f t).2) :
    Echoes (σ := σ) (τ := τ) O (Eval.modifyGet f) (Eval.modifyGet f) := by
  intro r above made m m' at_
  obtain ⟨same, left⟩ := h r above made m.state m'.state at_
  show O.Outcome (r :: above) made (.ok (f m.state).1, _) (.ok (f m'.state).1, _)
  rw [← same]
  exact .ok left

theorem modify {f : State → State}
    (h : ∀ r above made s t, O.At (r :: above) made s t → O.At (r :: above) made (f s) (f t)) :
    Echoes (σ := σ) (τ := τ) O (Eval.modify f) (Eval.modify f) :=
  modifyGet (f := fun s => ((), f s)) fun r above made s t at_ => ⟨rfl, h r above made s t at_⟩

/-- Memory is allocated alike, if that does not depend on homes. -/
theorem allocate {f : Memory → α × Memory}
    (h : ∀ m, (f (O.gap.memory m)).1 = (f m).1 ∧ (f (O.gap.memory m)).2 = O.gap.memory (f m).2) :
    Echoes (σ := σ) (τ := τ) O (Eval.allocate f) (Eval.allocate f) :=
  modifyGet fun _ _ _ s t at_ => by
    obtain ⟨same, left⟩ := h s.memory
    rw [← at_.memory] at same left
    exact ⟨same.symm, at_.remember left⟩

theorem attempt {fault? : State → Option EvalError} {change : State → State}
    (h : ∀ r above made s t, O.At (r :: above) made s t →
      fault? t = fault? s ∧ O.At (r :: above) made (change s) (change t)) :
    Echoes (σ := σ) (τ := τ) O (Eval.attempt fault? change) (Eval.attempt fault? change) := by
  intro r above made m m' at_
  obtain ⟨same, left⟩ := h r above made m.state m'.state at_
  rw [runOn_attempt, runOn_attempt, same]
  cases fault? m.state with
  | some e => exact .error at_.toAgree (.same _)
  | none => exact .ok left

theorem read {f : State → Eval σ α} {g : State → Eval τ α} (h : ∀ s t, s.Alike t → Echoes O (f s) (g t)) :
    Echoes O (Eval.state >>= f) (Eval.state >>= g) :=
  fun r above made m m' at_ => h m.state m'.state at_.alike r above made m m' at_

theorem stray (label : Label) (c : Completion) :
    Echoes (σ := σ) (τ := τ) (α := α) O (Eval.stray label c) (Eval.stray label c) := by
  intro r above made m m' h
  unfold Eval.stray
  rw [runOn_state_bind, runOn_state_bind, h.memory]
  exact .error h.toAgree (Gap.alike_stray c label m.state.memory)

theorem sameValues (v w : Value) : Echoes (σ := σ) (τ := τ) O (Eval.sameValues v w) (Eval.sameValues v w) := by
  intro r above made m m' h
  have same : m'.state.memory.same? = m.state.memory.same? := Memory.same?_congr (by rw [h.memory]; rfl)
  unfold Eval.sameValues
  rw [runOn_state_bind, runOn_state_bind, same]
  cases m.state.memory.same? v w with
  | none => exact .error h.toAgree (.same _)
  | some same => exact pure same r above made m m' h

/-- What is put off belongs to the frame on top. -/
theorem delay (n : Node) : Echoes (σ := σ) (τ := τ) O (Eval.delay n) (Eval.delay n) := by
  intro r above made m m' h
  obtain ⟨top, top'⟩ := h.top_eq
  have size : m'.state.memory.thunks.size = m.state.memory.thunks.size := by rw [h.memory]; exact Array.size_map
  have kept : O.At (r :: above) made { m.state with memory := (m.state.memory.newThunk n r).2 }
      { m'.state with memory := (m'.state.memory.newThunk n (O.gap.ref r)).2 } :=
    h.remember (by rw [h.memory, Gap.memory_newThunk])
  unfold Eval.delay
  rw [runOn_state_bind, runOn_state_bind, top, top']
  show O.Outcome (r :: above) made (.ok (Value.lazy ⟨m.state.memory.thunks.size⟩), _)
      (.ok (Value.lazy ⟨m'.state.memory.thunks.size⟩), _)
  rw [size]
  exact .ok kept

/-! ## Frames, calls and thunks -/

theorem inFrame {x : Eval σ α} {y : Eval τ α} (tag : FrameTag) (h : Echoes O x y) :
    Echoes O (Eval.inFrame tag x) (Eval.inFrame tag y) := by
  intro r above made m m' at_
  have run := h _ _ made { m with state := (m.state.push tag).2 } { m' with state := (m'.state.push tag).2 } (at_.push tag)
  rw [runOn_inFrame, runOn_inFrame, at_.fresh]
  generalize runOn x _ = ended at run ⊢
  generalize runOn y _ = ended' at run ⊢
  cases run with
  | error h alike => exact .error h alike
  | tooDeep => exact .tooDeep
  | ok h =>
    obtain ⟨popped, popped'⟩ := h.popFault_eq
    dsimp only [FrameRef.number, Gap.ref] at popped popped' ⊢
    rw [popped, popped']
    exact .ok h.dropTop

theorem inCall {x : Eval σ α} {y : Eval τ α} (name : String) (h : Echoes O x y) :
    Echoes O (Eval.inCall name x) (Eval.inCall name y) := by
  intro r above made m m' at_
  have run := h _ _ _ { m with state := m.state.calling name } { m' with state := m'.state.calling name } (at_.calling name)
  rw [runOn_inCall, runOn_inCall]
  unfold State.calling at run
  generalize runOn x _ = ended at run ⊢
  generalize runOn y _ = ended' at run ⊢
  cases run with
  | error h alike => exact .error h alike
  | tooDeep => exact .tooDeep
  | @ok a m₁ m₁' h =>
    have under : (r :: above ++ O.left.stack).headD .global = m.state.top := at_.top_eq.1.symm
    have under' : (List.map O.gap.ref (r :: above) ++ O.right.stack).headD .global = O.gap.ref r := rfl
    have recorded : m₁'.state.calls = ⟨name, (O.gap.ref r).number, O.gap.number m.state.frames.size⟩ ::
        (made.map O.gap.call ++ O.right.calls) := by
      rw [h.calls', Gap.number_ref O.positive, at_.top_eq.1]
      rfl
    dsimp only
    rw [runOn_leaveCall_of_control h.stack under h.calls, at_.fresh, runOn_leaveCall_of_control h.stack' under' recorded]
    exact .ok h.dropTop.popCall

theorem checkDepth (limit : Nat) (span : Option Span) :
    Echoes (σ := σ) (τ := τ) O (Eval.checkDepth limit span) (Eval.checkDepth limit span) := by
  intro r above made m m' h
  rw [runOn_checkDepth, runOn_checkDepth]
  by_cases deep : limit ≤ m'.state.callDepth
  · rw [if_pos deep]
    exact .tooDeep
  · rw [if_neg deep, if_neg fun deep' => deep (Nat.le_trans deep' h.callDepth_le)]
    exact .ok h

/-- A thunk is computed in its own frame. This is on top of both stacks then, whatever was. -/
theorem computing {x : Node → Eval σ Value} {y : Node → Eval τ Value} (q : ThunkRef) (h : ∀ n, Echoes O (x n) (y n))
    {above : List FrameRef} {made : List CallBoundary} {m : Machine σ} {m' : Machine τ}
    (at_ : O.At above made m.state m'.state) : O.Outcome above made (runOn (Eval.compute q x) m) (runOn (Eval.compute q y) m') := by
  rw [runOn_compute, runOn_compute, at_.thunk_eq]
  dsimp only [Gap.thunk]
  split
  · exact .ok at_
  · exact .error at_.toAgree (.same _)
  · have run := h (m.state.memory.thunk q).expression (m.state.memory.thunk q).home above made
      { m with state := (m.state.setPhase q .forcing).reenter (m.state.memory.thunk q).home }
      { m' with state := (m'.state.setPhase q .forcing).reenter (O.gap.ref (m.state.memory.thunk q).home) }
      ((at_.setPhase q .forcing).reenter _)
    generalize runOn (x _) _ = ended at run ⊢
    generalize runOn (y _) _ = ended' at run ⊢
    cases run with
    | error h alike => exact .error (h.setPhase q .pending) alike
    | tooDeep => exact .tooDeep
    | ok h =>
      obtain ⟨popped, popped'⟩ := h.popFault_eq
      dsimp only
      rw [popped, popped']
      exact .ok (h.dropTop.setPhase q _)

/-! ## Visits -/

section events
variable {settings : Settings} {o : Observer σ} {o' : Observer τ} (proceeds : o.Proceeds) (proceeds' : o'.Proceeds)
include proceeds proceeds'

theorem announced (e : Event) {above : List FrameRef} {made : List CallBoundary} {s t : State} (w : σ) (w' : τ)
    (h : O.At above made { s with lastEvent := some e } { t with lastEvent := some e }) :
    O.Outcome above made (runOn (suspend ⟨settings, o⟩ e) ⟨s, w⟩) (runOn (suspend ⟨settings, o'⟩ e) ⟨t, w'⟩) := by
  have goes := proceeds w e { s with lastEvent := some e }
  have goes' := proceeds' w' e { t with lastEvent := some e }
  rw [runOn_suspend, runOn_suspend]
  dsimp only at goes goes' ⊢
  generalize o.onStep w e _ = answer at goes ⊢
  generalize o'.onStep w' e _ = answer' at goes' ⊢
  obtain ⟨w₁, _⟩ := answer
  obtain ⟨w₁', _⟩ := answer'
  cases goes
  cases goes'
  exact .ok h

/-- Both sides make the same step. -/
theorem enter (n : NodeSummary) : Echoes O (Eval.enter ⟨settings, o⟩ n) (Eval.enter ⟨settings, o'⟩ n) := by
  intro r above made m m' h
  rw [runOn_enter, runOn_enter, h.steps]
  dsimp only
  split
  · exact .error (h.toAgree.congr h.memory h.output (congrArg (· + 1) h.steps) ⟨rfl, rfl, rfl⟩ ⟨rfl, rfl, rfl⟩) (.same _)
  · exact announced proceeds proceeds' (.enter n) m.watch m'.watch (h.entering n)

theorem exit (n : NodeSummary) : Echoes O (Eval.exit ⟨settings, o⟩ n) (Eval.exit ⟨settings, o'⟩ n) :=
  fun _ _ _ m m' h => announced proceeds proceeds' (.exit n) m.watch m'.watch (h.leaving n)

theorem bracket {x : Eval σ α} {y : Eval τ α} (n : NodeSummary) (h : Echoes O x y) :
    Echoes O (do Eval.enter ⟨settings, o⟩ n; let a ← x; Eval.exit ⟨settings, o⟩ n; Pure.pure a)
      (do Eval.enter ⟨settings, o'⟩ n; let a ← y; Eval.exit ⟨settings, o'⟩ n; Pure.pure a) :=
  (enter proceeds proceeds' n).bind fun _ => h.bind fun a => (exit proceeds proceeds' n).bind fun _ => pure a

end events

/-- Doing the same passes through every construct. -/
theorem lockstep (O : Overlay) (settings : Settings) {o : Observer σ} {o' : Observer τ} (proceeds : o.Proceeds)
    (proceeds' : o'.Proceeds) : Lockstep ⟨settings, o⟩ ⟨settings, o'⟩ (· = ·) (Echoes O) (Echoes O) where
  strategy := rfl
  pure := pure
  bind := bind
  fail e := stop (.error e)
  stray := stray
  read := read
  sameValues := sameValues
  newArray _ := allocate fun _ => ⟨rfl, rfl⟩
  newClosure _ _ _ := allocate fun _ => ⟨rfl, rfl⟩
  delay := delay
  setElement q i v _ := modify fun _ _ _ _ _ h => h.remember (by rw [h.memory]; rfl)
  write text := modify fun _ _ _ _ _ h => h.write text
  declare _ _ _ _ := attempt fun _ _ _ s t h => by
    rw [h.top_eq.1, h.top_eq.2]
    exact ⟨h.declareFault_eq _ _ _, h.modifyBindings _ _⟩
  declareGlobal name _ _ span := attempt fun _ _ _ s t h => by
    have same := h.declareFault_eq .global name span
    rw [Gap.ref_global O.positive] at same
    exact ⟨same, h.bindGlobal _ _⟩
  redefine _ _ _ := modify fun _ _ _ _ _ h => h.bindGlobal _ _
  assign _ _ _ := attempt fun _ _ _ s t h => ⟨h.assignFault_eq _ _, h.store _ _⟩
  inFrame {_ _ _ tag} _ := inFrame tag
  inCall name span h := (checkDepth _ span).bind fun _ => h.inCall name
  compute q h := fun _ _ _ _ _ at_ => computing q h at_
  bracket := bracket proceeds proceeds'
  after := bind
  quit := stop _
  forget := id
  fuels_zero h := .inl h.symm
  fuels_succ h := ⟨_, h.symm, rfl⟩

end Echoes

/-- A thunk is computed the same from both states, whatever frames are on top of them. -/
theorem outcome_forceOn {O : Overlay} (settings : Settings) {o : Observer σ} {o' : Observer τ} (proceeds : o.Proceeds)
    (proceeds' : o'.Proceeds) (q : ThunkRef) (m : Machine σ) (m' : Machine τ) {above : List FrameRef} {made : List CallBoundary}
    (h : O.At above made m.state m'.state) : ∀ fuel : Nat,
    O.Outcome above made (forceOn ⟨settings, o⟩ fuel (.lazy q) m) (forceOn ⟨settings, o'⟩ fuel (.lazy q) m')
  | 0 => .error h.toAgree (.same _)
  | fuel + 1 => by
    have L := Echoes.lockstep O settings proceeds proceeds'
    have V := L.visitors (rfl : fuel + 1 = fuel + 1)
    exact Echoes.computing q (L.computed V rfl) h

end Eval
end MiniC
