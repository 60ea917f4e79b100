import MiniC.Proofs.Lockstep
import MiniC.Proofs.Outcome

/-!
# Balance

Frames and calls are taken up and given back by hand, on every way out of a block,
a loop, a call and the computation of a thunk. Whatever succeeds leaves the chain of
frames and the calls in progress as it found them.
-/

namespace MiniC
variable {σ α : Type}

/-- The same frames in the same order, and the same calls. -/
def State.SameControl (s s' : State) : Prop := s'.chain = s.chain ∧ s'.calls = s.calls

theorem State.sameControl_iff {s s' : State} :
    s.SameControl s' ↔ s'.stack = s.stack ∧ s'.calls = s.calls := by
  simp [SameControl, chain]

namespace Eval

/-- Success leaves the chain and the calls as they were. -/
def Balanced (x : Eval σ α) : Prop := ∀ m a m', x m = .ok a m' → m.state.SameControl m'.state

namespace Balanced

theorem pure (a : α) : Balanced (pure a : Eval σ α) := by
  intro m b m' h
  obtain ⟨rfl, rfl⟩ := pure_eq_ok.mp h
  exact ⟨rfl, rfl⟩

theorem bind {β : Type} {x : Eval σ α} {f : α → Eval σ β} (hx : Balanced x) (hf : ∀ a, Balanced (f a)) :
    Balanced (x >>= f) := by
  intro m b m'' h
  obtain ⟨a, m', first, second⟩ := bind_eq_ok.mp h
  have before := hx m a m' first
  have after := hf a m' b m'' second
  exact ⟨after.1.trans before.1, after.2.trans before.2⟩

theorem stop (i : Interrupt) : Balanced (throw i : Eval σ α) := fun _ _ _ h => absurd h throw_ne_ok

theorem state : Balanced (Eval.state (σ := σ)) := by
  intro m s m' h
  obtain ⟨-, rfl⟩ := state_eq_ok.mp h
  exact ⟨rfl, rfl⟩

theorem modify {f : State → State} (hf : ∀ s : State, s.SameControl (f s)) : Balanced (Eval.modify (σ := σ) f) := by
  intro m a m' h
  obtain rfl := modify_eq_ok.mp h
  exact hf m.state

theorem attempt {fault? : State → Option EvalError} {change : State → State}
    (hf : ∀ s : State, s.SameControl (change s)) : Balanced (Eval.attempt (σ := σ) fault? change) := by
  intro m a m' h
  obtain ⟨-, rfl⟩ := attempt_eq_ok.mp h
  exact hf m.state

theorem allocate (f : Memory → α × Memory) : Balanced (Eval.allocate (σ := σ) f) := by
  intro m a m' h
  simp only [Eval.allocate, modifyGet, EStateM.Result.ok.injEq] at h
  obtain ⟨-, rfl⟩ := h
  exact ⟨rfl, rfl⟩

theorem suspend (ctx : Context σ) (e : Event) : Balanced (Eval.suspend ctx e) := by
  intro m a m' h
  unfold Eval.suspend at h
  dsimp only at h
  split at h
  · cases h
    exact ⟨rfl, rfl⟩
  · cases h

/-- The frame that is pushed for an evaluation is the one that is popped. -/
theorem inFrame {x : Eval σ α} (tag : FrameTag) (hx : Balanced x) : Balanced (Eval.inFrame tag x) := by
  intro m a m' h
  obtain ⟨m₁, evaluated, -, rfl⟩ := inFrame_eq_ok.mp h
  have same := State.sameControl_iff.mp (hx _ _ _ evaluated)
  refine State.sameControl_iff.mpr ⟨?_, ?_⟩
  · rw [State.dropTop_stack, same.1]
    rfl
  · rw [State.dropTop_calls, same.2]
    rfl

/-- A call takes its frame and its record with it. -/
theorem inCall {x : Eval σ α} (name : String) (hx : Balanced x) : Balanced (Eval.inCall name x) := by
  intro m a m' h
  obtain ⟨m₁, evaluated, left⟩ := inCall_eq_ok.mp h
  obtain ⟨-, -, call, rest, -, -, -, rfl⟩ := leaveCall_eq_ok.mp left
  have same := State.sameControl_iff.mp (hx _ _ _ evaluated)
  refine State.sameControl_iff.mpr ⟨?_, ?_⟩
  · show m₁.state.dropTop.stack = _
    rw [State.dropTop_stack, same.1]
    rfl
  · show m₁.state.dropTop.calls.tail = _
    rw [State.dropTop_calls, same.2]
    rfl

/-- The frame that a thunk re-enters is popped before its value is kept. -/
theorem compute {x : Node → Eval σ Value} (r : ThunkRef) (hx : ∀ n, Balanced (x n)) :
    Balanced (Eval.compute r x) := by
  intro m a m' h
  obtain ⟨-, rfl⟩ | ⟨-, m₁, evaluated, -, rfl⟩ := compute_eq_ok.mp h
  · exact ⟨rfl, rfl⟩
  · have same := State.sameControl_iff.mp (hx _ _ _ _ evaluated)
    refine State.sameControl_iff.mpr ⟨?_, ?_⟩
    · show m₁.state.dropTop.stack = _
      rw [State.dropTop_stack, same.1]
      rfl
    · show m₁.state.dropTop.calls = _
      rw [State.dropTop_calls, same.2]
      rfl

theorem checkDepth (limit : Nat) (span : Option Span) : Balanced (Eval.checkDepth (σ := σ) limit span) :=
  bind state fun _ => by
    split
    · exact stop _
    · exact pure _

theorem enter (ctx : Context σ) (n : NodeSummary) : Balanced (Eval.enter ctx n) :=
  bind (modify fun _ => ⟨rfl, rfl⟩) fun _ => by
    split
    · refine bind state fun _ => ?_
      dsimp only
      split
      · exact bind (stop _) fun _ => suspend ctx _
      · exact suspend ctx _
    · exact suspend ctx _

theorem exit (ctx : Context σ) (n : NodeSummary) : Balanced (Eval.exit ctx n) :=
  bind (modify fun _ => ⟨rfl, rfl⟩) fun _ => suspend ctx _

/-- Balance passes through every construct. -/
theorem lockstep (ctx : Context σ) :
    Lockstep ctx ctx (· = ·) (fun x _ => Balanced x) fun x _ => Balanced x where
  strategy := rfl
  pure := pure
  bind := bind
  fail e := stop (.error e)
  stray _ _ := bind state fun _ => stop _
  read h := bind state fun s => h s s (.refl s)
  sameValues v w := bind state fun s => by
    cases s.memory.same? v w with
    | none => exact stop _
    | some same => exact pure same
  newArray _ := allocate _
  newClosure _ _ _ := allocate _
  delay _ := bind state fun _ => bind (allocate _) fun _ => pure _
  setElement _ _ _ _ := modify fun _ => ⟨rfl, rfl⟩
  write _ := modify fun _ => ⟨rfl, rfl⟩
  declare _ _ _ _ := attempt fun _ => State.sameControl_iff.mpr ⟨by simp, by simp⟩
  declareGlobal _ _ _ _ := attempt fun _ => State.sameControl_iff.mpr ⟨by simp, by simp⟩
  redefine _ _ _ := modify fun _ => State.sameControl_iff.mpr ⟨by simp, by simp⟩
  assign _ _ _ := attempt fun _ => State.sameControl_iff.mpr ⟨by simp, by simp⟩
  inFrame {_ _ _ tag} _ := inFrame tag
  inCall name span h := bind (checkDepth _ span) fun _ => inCall name h
  compute := compute
  bracket n h := bind (enter ctx n) fun _ => bind h fun a => bind (exit ctx n) fun _ => pure a
  after := bind
  quit := stop _
  forget := id
  fuels_zero h := .inl h.symm
  fuels_succ h := ⟨_, h.symm, rfl⟩

end Balanced

/-- Every visit of a node, whatever its tree and the tag of its frame, every call,
    every loop and the forcing of every value that succeed leave the chain and the
    calls as they were, from any state and under any settings and observer. -/
theorem evaluation_balanced (ctx : Context σ) (fuel : Nat) :
    (∀ n tag, Balanced (visit ctx fuel n tag)) ∧
    (∀ callee arguments span,
      Balanced ((visitor ctx fuel).call ctx.settings.maxCallDepth callee arguments span)) ∧
    (∀ test body, Balanced ((visitor ctx fuel).whileLoop test body)) ∧
    (∀ body test, Balanced ((visitor ctx fuel).doLoop body test)) ∧
    (∀ start test update body, Balanced ((visitor ctx fuel).forLoop start test update body)) ∧
    (∀ v, Balanced ((visitor ctx fuel).force v)) := by
  have L := Balanced.lockstep ctx
  have V := L.visitors (rfl : fuel = fuel)
  exact ⟨V.visit, L.call V, L.whileLoop V, L.doLoop V, L.forLoop V, V.force⟩

/-- A `return` out of a block, in a block, in a loop, whose value is computed in the
    frame that the return leaves. -/
theorem early_return_balanced :
    let ctx : Context Unit := ⟨{ strategy := .lazy }, .silent⟩
    let m : Machine Unit := ⟨(State.seeded.push .block).2, ()⟩
    let loop := Tree.forLoop (some (Tree.var "int" "i" (some (Tree.num 2.0)))) none none
      (Tree.block [Tree.var "int" "y" (some (Tree.bin .add (Tree.ident "i") (Tree.num 1.0))),
        Tree.block [Tree.returnValue (some (Tree.ident "y"))]])
    ∃ v m', visit ctx 20 loop .block m = .ok (.returned v) m' ∧ m.state.SameControl m'.state := by
  intro ctx m loop
  have returns : (match visit ctx 20 loop .block m with | .ok (.returned _) _ => true | _ => false) = true := by
    decide +kernel
  split at returns
  · rename_i v m' evaluated
    exact ⟨v, m', evaluated, (evaluation_balanced ctx 20).1 _ _ _ _ _ evaluated⟩
  · cases returns

end Eval
end MiniC
