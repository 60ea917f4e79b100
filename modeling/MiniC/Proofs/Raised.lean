import MiniC.Proofs.Grounded
import MiniC.Proofs.Isolation
import MiniC.Proofs.Overlays

/-!
# Thunks are computed the same wherever they are needed

The computation of a thunk re-enters the frame that the thunk is from. So it does not depend on
the frames from which it is asked for: with whatever frames pushed before, it comes to the same
value, changes the same bindings and goes back to where it was asked for
(`State.forced_anywhere`).
-/

namespace MiniC
variable {σ τ : Type}
namespace State

/-- The frames on the stack and the homes of thunks exist in all states in which calls are made. -/
theorem Reachable.grounded {s : State} (h : s.Reachable) : s.Grounded :=
  (h.along (Grounded.respected _) (fun _ => .beginEvaluation) fun _ e h => h.recover e).2 .seeded

/-! ## Further frames -/

/-- A state in which further frames have been pushed, inside whatever frames, with whatever
    bindings and calls. -/
inductive Raised (s : State) : State → Prop
  | refl : Raised s s
  | push {t : State} (tag : FrameTag) (parent : FrameRef) (h : Raised s t) : Raised s (t.pushInside tag parent).2
  | bind {t : State} {n : Nat} (own : s.frames.size ≤ n) (name : String) (b : Binding) (h : Raised s t) :
      Raised s (t.bind (.numbered n) name b)
  | call {t : State} (c : CallBoundary) (h : Raised s t) : Raised s (t.pushCall c)

/-- Of a state in which further frames have been pushed: what was there is there still. -/
structure Covers (t s : State) : Prop where
  memory : t.memory = s.memory
  output : t.output = s.output
  steps : t.steps = s.steps
  errors : t.errors = s.errors
  detached : t.detached = s.detached
  size : s.frames.size ≤ t.frames.size
  frames (n : Nat) : n < s.frames.size → t.frame (.numbered n) = s.frame (.numbered n)
  stack : ∃ above, t.stack = above ++ s.stack ∧ ∀ r ∈ above, s.frames.size ≤ r.number ∧ r.number < t.frames.size
  calls : ∃ made, t.calls = made ++ s.calls

variable {s t : State}

theorem Raised.calling (h : s.Raised t) (name : String) : s.Raised (t.calling name) := .call _ (.push _ _ h)

theorem Raised.covers (h : s.Raised t) : t.Covers s := by
  induction h with
  | refl => exact ⟨rfl, rfl, rfl, rfl, rfl, Nat.le_refl _, fun _ _ => rfl, ⟨[], rfl, nofun⟩, [], rfl⟩
  | @push t tag parent _ ih =>
    obtain ⟨above, stack, numbers⟩ := ih.stack
    have size := t.size_frames_pushInside tag parent
    refine ⟨ih.memory, ih.output, ih.steps, ih.errors, ih.detached, ?_, fun n small => ?_,
      ⟨.numbered t.frames.size :: above, congrArg (_ :: ·) stack, ?_⟩, ih.calls⟩
    · exact size ▸ Nat.le_succ_of_le ih.size
    · rw [frame_pushInside_of_lt tag parent (Nat.lt_of_lt_of_le small ih.size), ih.frames n small]
    · rw [size]
      exact List.forall_mem_cons.mpr ⟨⟨ih.size, Nat.lt_succ_self _⟩, fun r member =>
        ⟨(numbers r member).1, Nat.lt_succ_of_lt (numbers r member).2⟩⟩
  | @bind t n own name b _ ih =>
    refine ⟨by rw [bind_memory, ih.memory], ih.output, by rw [bind_steps, ih.steps], ih.errors, ih.detached, ?_,
      fun k small => ?_, ?_, ?_⟩
    · rw [State.bind, frames_modifyBindings]
      exact ih.size
    · have other : k ≠ n := Nat.ne_of_lt (Nat.lt_of_lt_of_le small own)
      rw [State.bind, frame_modifyBindings, if_neg fun here => other here.1, ih.frames k small]
    · rw [bind_stack, State.bind, frames_modifyBindings]
      exact ih.stack
    · rw [bind_calls]
      exact ih.calls
  | call c _ ih =>
    obtain ⟨made, calls⟩ := ih.calls
    exact ⟨ih.memory, ih.output, ih.steps, ih.errors, ih.detached, ih.size, ih.frames, ih.stack, c :: made,
      congrArg (c :: ·) calls⟩

/-- The numbers of the further frames. -/
def gap (s t : State) : Gap := ⟨s.frames.size, t.frames.size - s.frames.size⟩

/-- The frames on a stack are not renamed, and the further ones are not among those that are. -/
theorem Covers.held (h : t.Covers s) (L : s.Lexical) (n : Nat) :
    t.stack.any (·.number == (s.gap t).number n) = s.stack.any (·.number == n) := by
  obtain ⟨above, stack, numbers⟩ := h.stack
  have none : above.any (·.number == (s.gap t).number n) = false := by
    refine List.any_eq_false.mpr fun r member same => ?_
    obtain ⟨outside, small⟩ := numbers r member
    refine Gap.number_ne (g := s.gap t) (m := n) outside ?_ (beq_iff_eq.mp same).symm
    rwa [gap, Nat.add_sub_cancel' h.size]
  have others : s.stack.any (·.number == (s.gap t).number n) = s.stack.any (·.number == n) := by
    rw [Bool.eq_iff_iff, List.any_eq_true, List.any_eq_true]
    refine exists_congr fun r => and_congr_right fun member => ?_
    obtain ⟨k, inside, rfl⟩ := L.inside_of_mem L.stacked r (List.mem_append_left _ member)
    have kept : (s.gap t).number k = k := Gap.number_of_lt inside
    show (k == (s.gap t).number n) = true ↔ (k == n) = true
    rw [beq_iff_eq, beq_iff_eq, ← Gap.number_inj (g := s.gap t) (n := n), kept]
  rw [stack, List.any_append, none, Bool.false_or, others]

/-- A state and one in which further frames have been pushed. -/
def overlay (L : s.Lexical) (h : t.Covers s) : Overlay where
  gap := s.gap t
  left := s
  right := t
  positive := L.nonempty
  held := h.held L
  deeper := by
    obtain ⟨made, calls⟩ := h.calls
    rw [calls, List.length_append]
    exact Nat.le_add_left _ _

/-- Nothing that was there is renamed. -/
theorem overlay_at (L : s.Lexical) (h : t.Covers s) (grounded : s.Grounded) :
    (overlay L h).At [] [] s t := by
  have size : t.frames.size = s.frames.size + (s.gap t).size := (Nat.add_sub_cancel' h.size).symm
  have older (n : Nat) (inside : n < s.frames.size) : ∀ q ∈ (s.frame (.numbered n)).around, (s.gap t).ref q = q := by
    intro q member
    obtain ⟨lt, numbered⟩ := L.older inside member
    rw [numbered]
    exact Gap.ref_of_lt (Nat.lt_trans lt inside)
  have memory : t.memory = (s.gap t).memory s.memory := by
    rw [h.memory, Gap.memory_eq]
    intro q made
    obtain ⟨n, inside, home⟩ := grounded.homes q made
    rw [home]
    exact Gap.ref_of_lt inside
  refine ⟨⟨⟨memory, h.output, h.steps, h.errors, size, fun r => ?_⟩, by rw [h.detached], Nat.le_refl _, older,
    fun _ _ _ => rfl⟩, rfl, rfl, rfl, rfl⟩
  cases r with
  | detached k =>
    show t.detached.getD k default = (s.gap t).frame (s.detached.getD k default)
    simp only [h.detached, Array.getD_eq_getD_getElem?, Array.getElem?_eq_none (grounded.whole ▸ Nat.zero_le k)]
    rfl
  | numbered n =>
    show t.frame (.numbered ((s.gap t).number n)) = (s.gap t).frame (s.frame (.numbered n))
    rcases Nat.lt_or_ge n s.frames.size with inside | outside
    · rw [Gap.number_of_lt (g := s.gap t) inside, h.frames n inside, Gap.frame_eq (older n inside)]
    · rw [Gap.number_of_le (g := s.gap t) outside, frame_outside outside, frame_outside (size ▸ Nat.add_le_add_right outside _)]
      rfl

/-- Thunks are computed the same wherever they are needed. Take a state in which calls are made,
    push whatever further frames on top, with whatever bindings and calls, and compute any thunk
    from both. Where observers go on, either the second computation finds that it is too deep in
    calls; or both end with the same value or interrupt and leave the same memory, output and
    frames, up to the numbers of the frames that they make, and the second one leaves the
    further frames alone. If they succeed the chain and the calls are what they were. -/
theorem forced_anywhere (reachable : s.Reachable) (raised : s.Raised t) (q : ThunkRef) (settings : Settings) (fuel : Nat)
    {o : Observer σ} (proceeds : o.Proceeds) {o' : Observer τ} (proceeds' : o'.Proceeds) (w : σ) (w' : τ) :
    let ran := Eval.forceOn ⟨settings, o⟩ fuel (.lazy q) ⟨s, w⟩
    let ran' := Eval.forceOn ⟨settings, o'⟩ fuel (.lazy q) ⟨t, w'⟩
    (∃ limit span, ran'.1 = .error (.error (.callDepth limit span))) ∨
    (s.gap t).Results ran.1 ran'.1 ∧ (s.gap t).Same ran.2.state ran'.2.state ∧
      (∀ n < s.frames.size, ran'.2.state.frame (.numbered n) = ran.2.state.frame (.numbered n)) ∧
      (∀ n, s.frames.size ≤ n → n < t.frames.size → ran'.2.state.frame (.numbered n) = t.frame (.numbered n)) ∧
      ∀ v, ran.1 = .ok v →
        (ran.2.state.chain = s.chain ∧ ran.2.state.top = s.top ∧ ran.2.state.calls = s.calls) ∧
        ran'.2.state.chain = t.chain ∧ ran'.2.state.top = t.top ∧ ran'.2.state.calls = t.calls := by
  intro ran ran'
  obtain ⟨⟨past, proper⟩, -⟩ := reachable.proper
  have covers := raised.covers
  have start := overlay_at proper.lexical covers reachable.grounded
  have ended : (overlay proper.lexical covers).Outcome [] [] ran ran' :=
    Eval.outcome_forceOn settings proceeds proceeds' q ⟨s, w⟩ ⟨t, w'⟩ start fuel
  have left {u u' : State} (h : (overlay proper.lexical covers).Agree u u') : (s.gap t).Same u u' ∧
      (∀ n < s.frames.size, u'.frame (.numbered n) = u.frame (.numbered n)) ∧
      ∀ n, s.frames.size ≤ n → n < t.frames.size → u'.frame (.numbered n) = t.frame (.numbered n) := by
    refine ⟨h.toSame, fun n inside => h.old inside, fun n outside small => h.between n outside ?_⟩
    show n < s.frames.size + (t.frames.size - s.frames.size)
    rwa [Nat.add_sub_cancel' covers.size]
  clear_value ran ran'
  cases ended with
  | tooDeep => exact .inl ⟨_, _, rfl⟩
  | error h alike =>
    obtain ⟨same, old, further⟩ := left h
    exact .inr ⟨.interrupt alike, same, old, further, nofun⟩
  | ok h =>
    obtain ⟨same, old, further⟩ := left h.toAgree
    refine .inr ⟨.value _, same, old, further, fun _ _ => ⟨⟨?_, ?_, h.calls⟩, ?_, ?_, h.calls'⟩⟩
    · exact congrArg (· ++ [.global]) h.stack
    · exact congrArg (·.headD .global) h.stack
    · exact congrArg (· ++ [.global]) h.stack'
    · exact congrArg (·.headD .global) h.stack'

/-- A thunk that needs another one is computed from its own block, and from inside a call in
    another block that shadows what it needs. -/
theorem forced_anywhere_shadowed :
    let halted : Task := ⟨{ strategy := .lazy }, .haltingAt fun e _ => e.isEnter && e.node.label == .literal, (), 20,
      ⟨[Tree.block [Tree.var "bool" "y" (some (Tree.bool true)), Tree.var "bool" "x" (some (Tree.ident "y")),
        Tree.bool false]], none⟩⟩
    let s := (halted.run seeded).2
    let shadowed := (s.push .block).2.bind (.numbered 2) "y" ⟨.plain .bool, .bool false⟩
    let t := shadowed.calling "f"
    let settings : Settings := { strategy := .lazy }
    let ran (u : State) := Eval.forceOn ⟨settings, (Observer.silent : Observer Unit)⟩ 20 (.lazy ⟨1⟩) ⟨u, ()⟩
    s.Reachable ∧ s.Raised t ∧ t.chain = [.numbered 3, .numbered 2, .numbered 1, .global] ∧ t.callDepth = 1 ∧
      (s.memory.thunk ⟨1⟩).isForced = false ∧ (s.memory.thunk ⟨1⟩).home = .numbered 1 ∧
      ∃ v, (ran s).1 = .ok v ∧ v.truthy = true ∧ (ran t).1 = .ok v ∧ (ran t).2.state.chain = t.chain ∧
        (s.gap t).Same (ran s).2.state (ran t).2.state := by
  intro halted s shadowed t settings ran
  have reached : s.Reachable := .of_run halted
  have size : s.frames.size ≤ 2 := by decide +kernel
  have raised : s.Raised t := .calling (.bind size "y" _ (.push .block _ .refl)) "f"
  have chain : t.chain = [.numbered 3, .numbered 2, .numbered 1, .global] := by decide +kernel
  have depth : t.callDepth = 1 := by decide +kernel
  have waits : (s.memory.thunk ⟨1⟩).isForced = false := by decide +kernel
  have home : (s.memory.thunk ⟨1⟩).home = .numbered 1 := by decide +kernel
  have value : (ran s).1.toOption.map Value.truthy = some true := by decide +kernel
  have value' : (ran t).1.isOk = true := by decide +kernel
  have proceeds : (Observer.silent : Observer Unit).Proceeds := fun _ _ _ => rfl
  -- the states are evaluated above, and stay names from here on
  clear_value s t
  refine ⟨reached, raised, chain, depth, waits, home, ?_⟩
  rcases forced_anywhere reached raised ⟨1⟩ settings 20 proceeds proceeds () () with
    ⟨limit, span, deep⟩ | ⟨results, same, -, -, back⟩
  · change (ran t).1 = _ at deep
    rw [deep] at value'
    cases value'
  · change (s.gap t).Results (ran s).1 (ran t).1 at results
    generalize ended : (ran s).1 = result at value results
    generalize ended' : (ran t).1 = result' at value' results
    cases results with
    | interrupt => cases value'
    | value v =>
      obtain ⟨-, chain', -, -⟩ := back v ended
      exact ⟨v, rfl, Option.some.inj value, rfl, chain', same⟩

end State
end MiniC
