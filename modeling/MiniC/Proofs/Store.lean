import Mathlib.Logic.Relation
import MiniC.Proofs.Recovery

/-!
# The store of frames

Whatever is done to a state by the operations of its store, in any order and with any
arguments, the frames stay in order: an evaluation does much less. Frames are numbered as
they are made and lie inside older ones, the global frame is at the bottom of the chain for
good, and a frame that has left the chain has lost its bindings (`State.Ordered`). What one
operation keeps of this is `Operation.ordered`, and every state that operations lead to has
it (`ordered_of_reached`).
-/

namespace MiniC

/-! ## Operations -/

/-- The operations of the store of frames. -/
inductive Operation where
  | push (tag : FrameTag)
  | pushInside (tag : FrameTag) (parent : Nat)
  | reenter (frame : Nat)
  | pop (expected : Nat)
  | declare (name : String) (kind : Kind) (v : Value) (span : Option Span)
  | declareGlobal (name : String) (kind : Kind) (v : Value) (span : Option Span)
  | assign (name : String) (v : Value) (span : Option Span)
  | pushCall (call : CallBoundary)
  | popCall
  | recover (e : EvalError)

namespace Operation

/-- What an operation does, which can end with an error. -/
def act : Operation → Eval Unit Unit
  | push tag => Eval.modify fun s => (s.push tag).2
  | pushInside tag parent => Eval.modify fun s => (s.pushInside tag (.numbered parent)).2
  | reenter frame => Eval.modify (·.reenter (.numbered frame))
  | pop expected => Eval.pop expected
  | declare name kind v span => Eval.declare name kind v span
  | declareGlobal name kind v span => Eval.declareGlobal name kind v span
  | assign name v span => Eval.assign name v span
  | pushCall call => Eval.modify (·.pushCall call)
  | popCall => Eval.modify (·.popCall)
  | recover e => Eval.modify (·.recover e)

/-- How an operation ends. -/
def result (op : Operation) (s : State) : Except Interrupt Unit := (Eval.runOn op.act ⟨s, ()⟩).1

/-- The state after an operation, also if it has ended with an error. -/
def after (op : Operation) (s : State) : State := (Eval.runOn op.act ⟨s, ()⟩).2.state

/-- Whether the frames that an operation names have been made. -/
def Applies (s : State) : Operation → Prop
  | pushInside _ parent => parent < s.frames.size
  | reenter frame => frame < s.frames.size
  | _ => True

/-- Whether an operation makes a frame. -/
def pushes : Operation → Bool
  | push _ | pushInside _ _ => true
  | _ => false

end Operation

namespace State

/-- One operation leads from a state to another. -/
def Operated (s s' : State) : Prop := ∃ op : Operation, op.Applies s ∧ s' = op.after s

/-- Operations lead from a state to another. -/
abbrev Reaches (s s' : State) : Prop := Relation.ReflTransGen Operated s s'

/-! ## The order of frames -/

/-- What holds of the frames whatever is done to them: the global frame has nothing around
    it, every other frame lies inside an older one, the stack holds frames that have been
    made, and a frame that is not on the chain has no bindings. -/
structure Ordered (s : State) : Prop where
  outermost : (s.frame .global).tag = .global ∧ (s.frame .global).around = []
  nonempty : 0 < s.frames.size
  detached : s.detached = #[]
  inside (n : Nat) : 0 < n → n < s.frames.size → ∃ k < n, (s.frame (.numbered n)).around = s.scopeOf (.numbered k)
  stacked (r : FrameRef) : r ∈ s.stack → ∃ n < s.frames.size, r = .numbered n
  departed (n : Nat) : .numbered n ∉ s.chain → (s.frame (.numbered n)).bindings = []

/-- What no operation takes away: frames stay, with what they were made for and what they lie
    inside, and global names stay bound, under their kinds. -/
structure Preserves (s s' : State) : Prop where
  frames : s.frames.size ≤ s'.frames.size
  tag (n : Nat) : n < s.frames.size → (s'.frame (.numbered n)).tag = (s.frame (.numbered n)).tag
  around (n : Nat) : n < s.frames.size → (s'.frame (.numbered n)).around = (s.frame (.numbered n)).around
  globals (name : String) (b : Binding) : s.global? name = some b → ∃ b', s'.global? name = some b' ∧ b'.kind = b.kind

namespace Ordered
variable {s : State}

theorem empty : Ordered {} where
  outermost := ⟨rfl, rfl⟩
  nonempty := Nat.one_pos
  detached := rfl
  inside n positive small := absurd small (Nat.not_lt.mpr positive)
  stacked r member := absurd member List.not_mem_nil
  departed n _ := by
    cases n with
    | zero => rfl
    | succ n =>
      rw [frame_outside (Nat.succ_le_succ (Nat.zero_le n))]
      rfl

/-- The frames stay as they are, and the stack grows by frames that have been made. -/
theorem still {s' : State} (h : s.Ordered) (frames : s'.frames = s.frames) (detached : s'.detached = s.detached)
    (stacked : ∀ r ∈ s'.stack, r ∈ s.stack ∨ ∃ n < s.frames.size, r = .numbered n) (held : ∀ r ∈ s.stack, r ∈ s'.stack) :
    s'.Ordered := by
  have same (n : Nat) : s'.frame (.numbered n) = s.frame (.numbered n) := by rw [frame, frame, frames]
  refine ⟨(by rw [FrameRef.global, same]; exact h.outermost), frames ▸ h.nonempty, detached.trans h.detached,
    fun n positive small => ?_, fun r member => ?_, fun n gone => ?_⟩
  · obtain ⟨k, older, parent⟩ := h.inside n positive (frames ▸ small)
    exact ⟨k, older, by rw [same, parent, scopeOf, scopeOf, same]⟩
  · rw [frames]
    exact (stacked r member).elim (h.stacked r) id
  · rw [same]
    refine h.departed n fun member => gone ?_
    rcases List.mem_append.mp member with above | bottom
    · exact List.mem_append_left _ (held _ above)
    · exact List.mem_append_right _ bottom

/-- The bindings of a frame of the chain change. -/
theorem modifyBindings (h : s.Ordered) {r : FrameRef} {f : Bindings → Bindings} (member : r ∈ s.chain) :
    (s.modifyBindings r f).Ordered := by
  have around (n : Nat) := s.around_modifyBindings r (.numbered n) f
  have size := s.frames_modifyBindings r f
  refine ⟨⟨?_, (around 0).trans h.outermost.2⟩, size ▸ h.nonempty, ?_, fun n positive small => ?_, ?_, fun n gone => ?_⟩
  · exact ((Lasts.modifyBindings s r f).tag 0 h.nonempty).trans h.outermost.1
  · cases r with
    | numbered k => exact h.detached
    | detached k =>
      simp [State.modifyBindings, h.detached]
  · obtain ⟨k, older, parent⟩ := h.inside n positive (size ▸ small)
    exact ⟨k, older, by rw [around, parent, scopeOf, scopeOf, around]⟩
  · rw [modifyBindings_stack, size]
    exact h.stacked
  · rw [chain, modifyBindings_stack] at gone
    have unbound := h.departed n gone
    cases r with
    | detached k => exact unbound
    | numbered k =>
      rw [frame_modifyBindings, if_neg]
      · exact unbound
      · rintro ⟨rfl, -⟩
        exact gone member

/-- A fresh frame has no bindings, and lies inside a frame that has been made. -/
theorem pushInside (h : s.Ordered) (tag : FrameTag) {parent : Nat} (made : parent < s.frames.size) :
    (s.pushInside tag (.numbered parent)).2.Ordered := by
  have old (n : Nat) (small : n ≠ s.frames.size) :
      (s.pushInside tag (.numbered parent)).2.frame (.numbered n) = s.frame (.numbered n) := by
    rw [frame_pushInside, if_neg small]
  have fresh : (s.pushInside tag (.numbered parent)).2.frame (.numbered s.frames.size) =
      ⟨tag, s.scopeOf (.numbered parent), []⟩ := s.frame_pushInside_self tag _
  have size := s.size_frames_pushInside tag (.numbered parent)
  have global : (s.pushInside tag (.numbered parent)).2.frame .global = s.frame .global := old 0 (Nat.ne_of_lt h.nonempty)
  refine ⟨?_, by omega, h.detached, fun n positive small => ?_, fun r member => ?_, fun n gone => ?_⟩
  · rw [global]
    exact h.outermost
  · by_cases newest : n = s.frames.size
    · subst newest
      exact ⟨parent, made, by rw [fresh, scopeOf, scopeOf, old parent (Nat.ne_of_lt made)]⟩
    · obtain ⟨k, older, around⟩ := h.inside n positive (by omega)
      exact ⟨k, older, by rw [old n newest, around, scopeOf, scopeOf, old k (by omega)]⟩
  · rw [size]
    rcases List.mem_cons.mp member with rfl | member
    · exact ⟨_, Nat.lt_succ_self _, rfl⟩
    · obtain ⟨n, small, same⟩ := h.stacked r member
      exact ⟨n, Nat.lt_succ_of_lt small, same⟩
  · by_cases newest : n = s.frames.size
    · rw [newest, fresh]
    · rw [old n newest]
      exact h.departed n fun member => gone (List.mem_cons_of_mem _ member)

theorem top_made (h : s.Ordered) : ∃ n < s.frames.size, s.top = .numbered n := by
  unfold State.top
  cases stack : s.stack with
  | nil => exact ⟨0, h.nonempty, rfl⟩
  | cons r rest => exact h.stacked r (by rw [stack]; exact List.mem_cons_self)

theorem push (h : s.Ordered) (tag : FrameTag) : (s.push tag).2.Ordered := by
  obtain ⟨n, made, top⟩ := h.top_made
  rw [State.push, top]
  exact h.pushInside tag made

/-- A frame on top that leaves the chain is emptied, unless the rest of the chain holds it. -/
theorem dropTop (h : s.Ordered) : s.dropTop.Ordered := by
  cases stack : s.stack with
  | nil =>
    rw [State.dropTop, stack]
    exact h
  | cons r rest =>
    obtain ⟨k, made, rfl⟩ := h.stacked r (by rw [stack]; exact List.mem_cons_self)
    have lasts := Lasts.dropTop s
    have around (n : Nat) : (s.dropTop.frame (.numbered n)).around = (s.frame (.numbered n)).around := by
      rw [State.dropTop, stack]
      exact around_clearIfGone { s with stack := rest } (.numbered k) rest n
    have below : s.dropTop.stack = rest := by rw [dropTop_stack, stack, List.tail_cons]
    refine ⟨⟨(lasts.tag 0 h.nonempty).trans h.outermost.1, (around 0).trans h.outermost.2⟩, ?_, ?_,
      fun n positive small => ?_, fun q member => ?_, fun n gone => ?_⟩
    · rw [frames_dropTop]
      exact h.nonempty
    · rw [State.dropTop, stack]
      dsimp only
      unfold clearIfGone
      split
      · exact h.detached
      · exact h.detached
    · obtain ⟨j, older, parent⟩ := h.inside n positive (by rwa [frames_dropTop] at small)
      exact ⟨j, older, by rw [around, parent, scopeOf, scopeOf, around]⟩
    · rw [frames_dropTop]
      rw [below] at member
      exact h.stacked q (by rw [stack]; exact List.mem_cons_of_mem _ member)
    · rw [chain, below] at gone
      by_cases same : n = k
      · subst same
        have left : ¬ ((FrameRef.numbered n).number = globalNumber ∨
            rest.any (·.number == (FrameRef.numbered n).number)) := by
          rintro (outermost | still)
          · exact gone (List.mem_append_right _ (List.mem_singleton.mpr (congrArg FrameRef.numbered outermost)))
          · obtain ⟨q, member, shown⟩ := List.any_eq_true.mp still
            obtain ⟨j, -, rfl⟩ := h.stacked q (by rw [stack]; exact List.mem_cons_of_mem _ member)
            have : j = n := eq_of_beq shown
            subst this
            exact gone (List.mem_append_left _ member)
        rw [State.dropTop, stack]
        dsimp only
        unfold clearIfGone
        rw [if_neg left, frame_modifyBindings, if_pos ⟨rfl, made⟩]
      · rw [frame_dropTop stack same]
        refine h.departed n fun member => gone ?_
        rw [chain, stack] at member
        exact (List.mem_cons.mp member).resolve_left fun eq => same (FrameRef.numbered.inj eq)

/-- Unwinding drops one frame after the other. -/
theorem clearAll (stack : List FrameRef) (h : State.Ordered { s with stack }) :
    State.Ordered { s.clearAll stack with stack := [] } := by
  induction stack generalizing s with
  | nil => exact h
  | cons r rest ih =>
    refine ih (s := s.clearIfGone r rest) ?_
    have dropped : State.dropTop { s with stack := r :: rest } = { s.clearIfGone r rest with stack := rest } := by
      show State.clearIfGone { s with stack := rest } r rest = _
      unfold clearIfGone State.modifyBindings
      split
      · rfl
      · cases r <;> rfl
    exact dropped ▸ h.dropTop

theorem unwind (h : s.Ordered) : s.unwind.Ordered :=
  (clearAll s.stack h).still rfl rfl (fun _ => .inl) fun _ => id

theorem recover (h : s.Ordered) (e : EvalError) : (s.recover e).Ordered := by
  have recorded : State.Ordered { s with errors := s.errors.push e } := h.still rfl rfl (fun _ => .inl) fun _ => id
  exact recorded.unwind.still rfl rfl (fun _ => .inl) fun _ => id

/-- Scopes go outwards from a frame through older and older ones that have been made. -/
theorem scopeOf_older (h : s.Ordered) (n : Nat) (made : n < s.frames.size) :
    (∀ r ∈ s.scopeOf (.numbered n), ∃ k ≤ n, r = .numbered k) ∧
      (s.scopeOf (.numbered n)).Pairwise fun r q => q.number < r.number := by
  induction n using Nat.strongRecOn with
  | _ n ih =>
    rw [scopeOf]
    rcases Nat.eq_zero_or_pos n with rfl | positive
    · rw [show (s.frame (.numbered 0)).around = [] from h.outermost.2]
      refine ⟨fun r member => ⟨0, Nat.le_refl 0, List.mem_singleton.mp member⟩, List.pairwise_singleton _ _⟩
    · obtain ⟨k, older, around⟩ := h.inside n positive made
      obtain ⟨within, ordered⟩ := ih k older (Nat.lt_trans older made)
      rw [around]
      refine ⟨fun r member => ?_, List.pairwise_cons.mpr ⟨fun r member => ?_, ordered⟩⟩
      · rcases List.mem_cons.mp member with rfl | member
        · exact ⟨n, Nat.le_refl n, rfl⟩
        · obtain ⟨j, le, same⟩ := within r member
          exact ⟨j, by omega, same⟩
      · obtain ⟨j, le, rfl⟩ := within r member
        exact Nat.lt_of_le_of_lt le older

/-- A frame in which a name is found is on the chain. -/
theorem mem_chain_of_lookupFrame (h : s.Ordered) {name : String} {r : FrameRef} (found : s.lookupFrame? name = some r) :
    r ∈ s.chain := by
  have binds := List.find?_some (p := fun r => (s.frame r).bindings.contains name) found
  cases r with
  | detached k =>
    have none : s.frame (.detached k) = default := by simp [State.frame, h.detached]
    rw [none] at binds
    cases binds
  | numbered n =>
    by_contra gone
    rw [h.departed n gone] at binds
    cases binds

end Ordered

namespace Preserves
variable {s s' s'' : State}

theorem refl (s : State) : s.Preserves s := ⟨Nat.le_refl _, fun _ _ => rfl, fun _ _ => rfl, fun _ b bound => ⟨b, bound, rfl⟩⟩

theorem trans (h : s.Preserves s') (h' : s'.Preserves s'') : s.Preserves s'' where
  frames := Nat.le_trans h.frames h'.frames
  tag n made := (h'.tag n (Nat.lt_of_lt_of_le made h.frames)).trans (h.tag n made)
  around n made := (h'.around n (Nat.lt_of_lt_of_le made h.frames)).trans (h.around n made)
  globals name b bound := by
    obtain ⟨b', bound', kind⟩ := h.globals name b bound
    obtain ⟨b'', bound'', kind'⟩ := h'.globals name b' bound'
    exact ⟨b'', bound'', kind'.trans kind⟩

/-- Frames last, and the global frame stays as it is. -/
theorem of_lasts (lasts : s.Lasts s') (global : s'.frame .global = s.frame .global) : s.Preserves s' :=
  ⟨lasts.frames, lasts.tag, lasts.around, fun name b bound => ⟨b, by rw [global?, global]; exact bound, rfl⟩⟩

/-- A name is declared in a frame that does not bind it. -/
theorem bind {r : FrameRef} {name : String} {span : Option Span} (free : s.declareFault? r name span = none) (b : Binding) :
    s.Preserves (s.bind r name b) := by
  have lasts := Lasts.modifyBindings s r (·.insert name b)
  refine ⟨lasts.frames, lasts.tag, lasts.around, fun x old bound => ⟨old, ?_, rfl⟩⟩
  cases r with
  | detached k => exact bound
  | numbered n =>
    have unbound := declareFault?_eq_none.mp free
    show (s.bind (.numbered n) name b).get? .global x = some old
    rw [get?_bind, if_neg]
    · exact bound
    · rintro ⟨same, -, rfl⟩
      rw [← same] at unbound
      cases unbound.symm.trans bound

theorem store (s : State) (name : String) (v : Value) : s.Preserves (s.store name v) := by
  have lasts := (Calm.store s name v).toLasts
  refine ⟨lasts.frames, lasts.tag, lasts.around, fun x old bound => ?_⟩
  have after : (s.store name v).get? .global x = _ := get?_store s name x v 0
  split at after
  · exact ⟨{ old with value := v }, after.trans (congrArg _ bound), rfl⟩
  · exact ⟨old, after.trans bound, rfl⟩

end Preserves

end State

/-! ## One operation -/

namespace Operation

/-- Why an operation cannot be done, if it cannot. -/
def fault? (s : State) : Operation → Option EvalError
  | pop expected => s.popFault? expected
  | declare name _ _ span => s.declareFault? s.top name span
  | declareGlobal name _ _ span => s.declareFault? .global name span
  | assign name _ span => s.assignFault? name span
  | _ => none

/-- What an operation makes of a state if it can be done. -/
def change (s : State) : Operation → State
  | push tag => (s.push tag).2
  | pushInside tag parent => (s.pushInside tag (.numbered parent)).2
  | reenter frame => s.reenter (.numbered frame)
  | pop _ => s.dropTop
  | declare name kind v _ => s.bind s.top name ⟨kind, v⟩
  | declareGlobal name kind v _ => s.bind .global name ⟨kind, v⟩
  | assign name v _ => s.store name v
  | pushCall call => s.pushCall call
  | popCall => s.popCall
  | recover e => s.recover e

/-- An operation that cannot be done ends with an error and changes nothing. -/
theorem runOn_act (op : Operation) (s : State) :
    Eval.runOn op.act ⟨s, ()⟩ =
      match op.fault? s with
      | some e => (.error (.error e), ⟨s, ()⟩)
      | none => (.ok (), ⟨op.change s, ()⟩) := by
  cases op with
  | pop => exact Eval.runOn_attempt _ _ _
  | declare => exact Eval.runOn_attempt _ _ _
  | declareGlobal => exact Eval.runOn_attempt _ _ _
  | assign => exact Eval.runOn_attempt _ _ _
  | push | pushInside | reenter | pushCall | popCall | recover => rfl

theorem after_eq (op : Operation) (s : State) : op.after s = if (op.fault? s).isSome then s else op.change s := by
  unfold after
  rw [runOn_act]
  cases op.fault? s with
  | some e => rfl
  | none => rfl

theorem after_of_error {op : Operation} {s : State} {i : Interrupt} (failed : op.result s = .error i) : op.after s = s := by
  unfold result at failed
  rw [runOn_act] at failed
  rw [after_eq]
  cases fault : op.fault? s with
  | some e => rfl
  | none =>
    rw [fault] at failed
    cases failed

/-- Whatever operation is done, the frames stay in order. -/
theorem ordered {op : Operation} {s : State} (h : s.Ordered) (applies : op.Applies s) : (op.after s).Ordered := by
  rw [after_eq]
  split
  · exact h
  · cases op with
    | push tag => exact h.push tag
    | pushInside tag parent => exact h.pushInside tag applies
    | reenter frame =>
      refine h.still rfl rfl (fun r member => ?_) fun r member => List.mem_cons_of_mem _ member
      rcases List.mem_cons.mp member with rfl | member
      · exact .inr ⟨frame, applies, rfl⟩
      · exact .inl member
    | pop expected => exact h.dropTop
    | declare name kind v span =>
      refine h.modifyBindings (f := (·.insert name ⟨kind, v⟩)) ?_
      unfold State.top State.chain
      cases s.stack with
      | nil => exact List.mem_cons_self
      | cons r rest => exact List.mem_cons_self
    | declareGlobal name kind v span =>
      exact h.modifyBindings (f := (·.insert name ⟨kind, v⟩)) (List.mem_append_right _ List.mem_cons_self)
    | assign name v span =>
      show (s.store name v).Ordered
      unfold State.store
      cases found : s.lookupFrame? name with
      | none => exact h
      | some r => exact h.modifyBindings (h.mem_chain_of_lookupFrame found)
    | pushCall call => exact h.still rfl rfl (fun _ => .inl) fun _ => id
    | popCall => exact h.still rfl rfl (fun _ => .inl) fun _ => id
    | recover e => exact h.recover e

/-- Whatever operation is done, frames last and global names stay bound. -/
theorem preserves {op : Operation} {s : State} (h : s.Ordered) : s.Preserves (op.after s) := by
  have pushed (tag : FrameTag) (parent : FrameRef) : s.Preserves (s.pushInside tag parent).2 := by
    refine .of_lasts (.pushInside s tag parent) ?_
    exact State.frame_pushInside_of_lt tag parent h.nonempty
  rw [after_eq]
  split
  · exact .refl s
  · rename_i possible
    have free := Option.not_isSome_iff_eq_none.mp possible
    cases op with
    | push tag => exact pushed tag s.top
    | pushInside tag parent => exact pushed tag (.numbered parent)
    | reenter frame => exact .of_lasts (.still rfl rfl) rfl
    | pop expected => exact .of_lasts (.dropTop s) s.global_dropTop
    | declare name kind v span => exact .bind free _
    | declareGlobal name kind v span => exact .bind free _
    | assign name v span => exact .store s name v
    | pushCall call => exact .of_lasts (.still rfl rfl) rfl
    | popCall => exact .of_lasts (.still rfl rfl) rfl
    | recover e =>
      exact .of_lasts (.recover s e) (State.clearAll_frames { s with errors := s.errors.push e } s.stack).2.1

/-- A frame that is made goes on top under the next number, and no other operation makes one. -/
theorem numbers (op : Operation) (s : State) :
    if op.pushes then (op.after s).top = .numbered s.frames.size ∧ (op.after s).frames.size = s.frames.size + 1
    else (op.after s).frames.size = s.frames.size := by
  have pushed (tag : FrameTag) (parent : FrameRef) : (s.pushInside tag parent).2.top = .numbered s.frames.size ∧
      (s.pushInside tag parent).2.frames.size = s.frames.size + 1 := ⟨rfl, s.size_frames_pushInside tag parent⟩
  have kept (size : (op.change s).frames.size = s.frames.size) : (op.after s).frames.size = s.frames.size := by
    rw [after_eq]
    split
    · rfl
    · exact size
  cases op with
  | push tag => exact pushed tag s.top
  | pushInside tag parent => exact pushed tag (.numbered parent)
  | reenter | pushCall | popCall => rfl
  | pop expected => exact kept s.frames_dropTop
  | declare name kind v span => exact kept (s.frames_modifyBindings _ _)
  | declareGlobal name kind v span => exact kept (s.frames_modifyBindings _ _)
  | assign name v span =>
    refine kept ?_
    show (s.store name v).frames.size = _
    unfold State.store
    split
    · exact s.frames_modifyBindings _ _
    · rfl
  | recover e => exact (State.clearAll_frames { s with errors := s.errors.push e } s.stack).1

end Operation

/-! ## Any operations -/

namespace State

/-- Frames stay in order, whatever is done. -/
theorem ordered_of_reaches {s s' : State} (h : s.Ordered) (reaches : s.Reaches s') : s'.Ordered := by
  induction reaches with
  | refl => exact h
  | tail _ step ih =>
    obtain ⟨op, applies, rfl⟩ := step
    exact op.ordered ih applies

/-- Frames last and global names stay bound, whatever is done. -/
theorem preserves_of_reaches {s s' : State} (h : s.Ordered) (reaches : s.Reaches s') : s.Preserves s' := by
  induction reaches with
  | refl => exact .refl s
  | tail before step ih =>
    obtain ⟨op, applies, rfl⟩ := step
    exact ih.trans (op.preserves (ordered_of_reaches h before))

/-- A store changes no frame but the one in which its name is found. -/
theorem Ordered.frame_store {s : State} (h : s.Ordered) {r : FrameRef} (gone : r ∉ s.chain) (name : String) (v : Value) :
    (s.store name v).frame r = s.frame r := by
  unfold store
  cases found : s.lookupFrame? name with
  | none => rfl
  | some q =>
    have held := h.mem_chain_of_lookupFrame found
    cases r with
    | detached j =>
      cases q with
      | numbered n => rfl
      | detached k => simp [State.modifyBindings, State.frame, h.detached]
    | numbered n =>
      cases q with
      | detached k => rfl
      | numbered k =>
        dsimp only
        rw [frame_modifyBindings, if_neg]
        rintro ⟨rfl, -⟩
        exact gone held

end State

/-- In every state that operations lead to from an empty store, the chain ends with the
    global frame, which has nothing around it, and no later operation takes a frame away or
    a global name. Frames are told apart by their numbers, which are given in order, and every
    other frame lies inside an older one, so that names are looked up through older and older
    frames. A frame that is not on the chain has no bindings; no name is found there, and none
    is assigned to. An operation that ends with an error changes nothing. -/
theorem store_in_order {s : State} (reaches : State.Reaches {} s) :
    (s.chain.getLast? = some .global ∧ (s.frame .global).tag = .global ∧ (s.frame .global).parent? = none) ∧
    (∀ s', s.Reaches s' → s.Preserves s') ∧
    (∀ r ∈ s.chain, ∃ n < s.frames.size, r = .numbered n) ∧
    (∀ op : Operation, if op.pushes then
        (op.after s).top = .numbered s.frames.size ∧ (op.after s).frames.size = s.frames.size + 1
      else (op.after s).frames.size = s.frames.size) ∧
    (∀ n, 0 < n → n < s.frames.size → ∃ k < n, (s.frame (.numbered n)).parent? = some (.numbered k) ∧
      (s.frame (.numbered n)).around = s.scopeOf (.numbered k)) ∧
    s.scope.Pairwise (fun r q => q.number < r.number) ∧
    (∀ r, r ∉ s.chain → (s.frame r).bindings = []) ∧
    (∀ name r, s.lookupFrame? name = some r → r ∈ s.chain) ∧
    (∀ name v span r, r ∉ s.chain → ((Operation.assign name v span).after s).frame r = s.frame r) ∧
    (∀ (op : Operation) (i : Interrupt), op.result s = .error i → op.after s = s) := by
  have h := State.ordered_of_reaches .empty reaches
  refine ⟨⟨List.getLast?_concat, h.outermost.1, ?_⟩, fun s' => State.preserves_of_reaches h, fun r member => ?_,
    fun op => op.numbers s, fun n positive made => ?_, ?_, fun r gone => ?_, fun name r => h.mem_chain_of_lookupFrame,
    fun name v span r gone => ?_, fun op i => Operation.after_of_error⟩
  · rw [Frame.parent?, h.outermost.2]
    rfl
  · rcases List.mem_append.mp member with above | bottom
    · exact h.stacked r above
    · exact ⟨0, h.nonempty, List.mem_singleton.mp bottom⟩
  · obtain ⟨k, older, around⟩ := h.inside n positive made
    exact ⟨k, older, by rw [Frame.parent?, around]; rfl, around⟩
  · obtain ⟨n, made, same⟩ := h.top_made
    have older := (h.scopeOf_older n made).2
    rwa [← same] at older
  · cases r with
    | numbered n => exact h.departed n gone
    | detached k => simp [State.frame, h.detached]; rfl
  · rw [Operation.after_eq]
    split
    · rfl
    · exact h.frame_store gone name v

/-- A frame that is on the chain twice keeps its bindings until it has been popped twice. -/
theorem store_in_order_twice : ∃ s₁ s₂ : State, State.Reaches {} s₁ ∧ State.Reaches s₁ s₂ ∧
    s₁.stack = [.numbered 1] ∧ (s₁.get? (.numbered 1) "x").isSome ∧
    s₂.stack = [] ∧ (s₂.frame (.numbered 1)).bindings = [] := by
  have pushed : State.Reaches {} _ := .single ⟨.push .block, trivial, rfl⟩
  have declared := pushed.tail ⟨.declare "x" (.plain .bool) (.bool true) none, trivial, rfl⟩
  have twice := declared.tail ⟨.reenter 1, Nat.one_lt_two, rfl⟩
  have once := twice.tail ⟨.pop 1, trivial, rfl⟩
  have left := once.tail ⟨.pop 1, trivial, rfl⟩
  refine ⟨_, _, once, .single ⟨.pop 1, trivial, rfl⟩, rfl, rfl, rfl, ?_⟩
  exact (store_in_order left).2.2.2.2.2.2.1 (.numbered 1) (by decide)

end MiniC
