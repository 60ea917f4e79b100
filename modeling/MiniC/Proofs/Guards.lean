import MiniC.Proofs.Sound

/-!
# Guarded evaluations

From every sound state a guarded evaluation ends in a sound one, and if it succeeds with the
chain and the calls as they were. If it fails then with an ordinary error, or with one that
tells of a node where a value is needed that has completed with a jump or a `return`, or of a
jump that no loop takes (`Eval.Guards`). Frames, calls and thunks are given back before a
guarded evaluation ends, so none of the checks that find a wrong frame ever fails.
-/

namespace MiniC
variable {σ α β : Type}

/-! ## Faults -/

/-- The last event is that a node is left which has completed with a jump or a `return` where
    a value is needed, and that is why the evaluation ends. -/
def Interrupt.Stray (ctx : Context σ) (last : Option Event) (i : Interrupt) : Prop :=
  ∃ (fuel : Nat) (n : Node) (m : Machine σ) (c : Completion) (m' : Machine σ),
    Eval.runOn ((Eval.visitor ctx fuel).node n) m = (.ok c, m') ∧ (∀ v, c ≠ .normal v) ∧
    i = c.stray n.label m'.state.memory ∧ last = some (.exit n.summary)

/-- How an evaluation may end early, by the state that it leaves. What comes of nodes in wrong
    places does so only if nothing is asked of the code. -/
def Interrupt.Justified (ctx : Context σ) (strict : Bool) (s : State) : Interrupt → Prop
  | .error (.invariant fault) => strict = false ∧ Stray ctx s.lastEvent (.error (.invariant fault))
  | .error (.jumpOutsideLoop _ _) => strict = false
  | .endlessText => strict = false ∧ Stray ctx s.lastEvent .endlessText ∧ s.memory.Circular
  | _ => True

/-- A thunk that is put back after an early end does not hide the reason for it. -/
theorem Interrupt.Justified.setPhase {ctx : Context σ} {strict : Bool} {s : State} {i : Interrupt} (h : i.Justified ctx strict s)
    (t : ThunkRef) (phase : Phase) : i.Justified ctx strict (s.setPhase t phase) := by
  cases i with
  | error e => cases e <;> exact h
  | _ => exact h

theorem EvalError.justified_of_ordinary {ctx : Context σ} {strict : Bool} {s : State} {e : EvalError}
    (ordinary : e.ordinary = true) : (Interrupt.error e).Justified ctx strict s := by
  cases e with
  | invariant fault => cases ordinary
  | jumpOutsideLoop jump span => cases ordinary
  | _ => trivial

namespace Eval

/-- From every sound state an evaluation that succeeds ends in a sound state, with the chain
    and the calls as they were, and yields what is claimed; and one that ends early ends in a
    sound state and is justified. -/
def Guards (ctx : Context σ) (strict : Bool) (x : Eval σ α) (Q : α → Prop) : Prop := ∀ m, m.state.Sound strict →
  match runOn x m with
  | (.ok a, m') => m'.state.Sound strict ∧ m.state.SameControl m'.state ∧ Q a
  | (.error i, m') => m'.state.Sound strict ∧ i.Justified ctx strict m'.state

namespace Guards
variable {ctx : Context σ} {strict : Bool} {Q Q' : α → Prop} {R : β → Prop}

/-! ## Steps -/

theorem pure {a : α} (h : Q a) : Guards ctx strict (pure a) Q := fun _ sound => ⟨sound, ⟨rfl, rfl⟩, h⟩

theorem stop {i : Interrupt} (h : ∀ s, i.Justified ctx strict s) : Guards ctx strict (throw i) Q :=
  fun _ sound => ⟨sound, h _⟩

theorem outOfFuel : Guards ctx strict (throw .outOfFuel) Q := stop fun _ => trivial

theorem fail {e : EvalError} (ordinary : e.ordinary = true) : Guards ctx strict (Eval.fail e) Q :=
  stop fun _ => EvalError.justified_of_ordinary ordinary

theorem bind {x : Eval σ α} {f : α → Eval σ β} (first : Guards ctx strict x Q)
    (second : ∀ a, Q a → Guards ctx strict (f a) R) : Guards ctx strict (x >>= f) R := by
  intro m sound
  have begun := first m sound
  rw [runOn_bind]
  generalize runOn x m = outcome at begun ⊢
  obtain ⟨⟨i⟩ | ⟨a⟩, m₁⟩ := outcome
  · exact begun
  · obtain ⟨sound₁, same, holds⟩ := begun
    have done := second a holds m₁ sound₁
    dsimp only
    generalize runOn (f a) m₁ = outcome at done ⊢
    obtain ⟨⟨i⟩ | ⟨b⟩, m₂⟩ := outcome
    · exact done
    · obtain ⟨sound₂, same', holds'⟩ := done
      exact ⟨sound₂, ⟨same'.1.trans same.1, same'.2.trans same.2⟩, holds'⟩

/-- A check that may fail before the rest. -/
theorem checked {c : Prop} [Decidable c] {e : EvalError} (ordinary : e.ordinary = true) {x : Eval σ β}
    (h : Guards ctx strict x R) :
    Guards ctx strict (do
      if c then
        Eval.fail e
      x) R := by
  by_cases wrong : c
  · simpa only [wrong, if_true] using bind (Q := fun _ => True) (fail ordinary) fun _ _ => h
  · simpa only [wrong, if_false, pure_bind] using h

theorem conclude {x : Eval σ α} (h : Guards ctx strict x Q) (weaker : ∀ a, Q a → Q' a) : Guards ctx strict x Q' := by
  intro m sound
  have done := h m sound
  generalize runOn x m = outcome at done ⊢
  obtain ⟨⟨i⟩ | ⟨a⟩, m₁⟩ := outcome
  · exact done
  · exact ⟨done.1, done.2.1, weaker a done.2.2⟩

theorem read {f : State → Eval σ α} (h : ∀ s : State, s.Sound strict → Guards ctx strict (f s) Q) :
    Guards ctx strict (Eval.state >>= f) Q := fun m sound => h m.state sound m sound

theorem ofExcept {x : Except EvalError α} (ordinary : Ordinary x) (h : ∀ a, x = .ok a → Q a) :
    Guards ctx strict (Eval.ofExcept x) Q := by
  cases x with
  | ok a => exact pure (h a rfl)
  | error e => exact fail (ordinary e rfl)

theorem modifyGet {f : State → α × State}
    (h : ∀ s : State, s.Sound strict → (f s).2.Sound strict ∧ s.SameControl (f s).2 ∧ Q (f s).1) :
    Guards ctx strict (Eval.modifyGet f) Q := fun m sound => h m.state sound

theorem modify {f : State → State} (h : ∀ s : State, s.Sound strict → (f s).Sound strict ∧ s.SameControl (f s)) :
    Guards ctx strict (Eval.modify f) fun _ => True := fun m sound => ⟨(h m.state sound).1, (h m.state sound).2, trivial⟩

theorem attempt {fault? : State → Option EvalError} {change : State → State}
    (ordinary : ∀ s e, fault? s = some e → e.ordinary = true)
    (h : ∀ s : State, s.Sound strict → (change s).Sound strict ∧ s.SameControl (change s)) :
    Guards ctx strict (Eval.attempt fault? change) fun _ => True := by
  refine read fun s _ => ?_
  cases fault : fault? s with
  | some e => exact fail (ordinary s e fault)
  | none => exact modify h

theorem mapM {f : α → Eval σ β} : ∀ {items : List α}, (∀ a ∈ items, Guards ctx strict (f a) R) →
    Guards ctx strict (items.mapM f) fun bs => ∀ b ∈ bs, R b
  | [], _ => pure (List.forall_mem_nil R)
  | a :: rest, h => by
    rw [List.mapM_cons]
    have others := mapM fun a' member => h a' (List.mem_cons_of_mem a member)
    exact bind (h a List.mem_cons_self) fun b holds => bind others fun bs all =>
      pure (List.forall_mem_cons.mpr ⟨holds, all⟩)

/-! ## Frames, calls and thunks -/

/-- The frame that is pushed for an evaluation is on top again when that is done. -/
theorem inFrame {x : Eval σ α} (tag : FrameTag) (h : Guards ctx strict x Q) : Guards ctx strict (Eval.inFrame tag x) Q := by
  intro m sound
  have done := h { m with state := (m.state.push tag).2 } (sound.pushInside tag m.state.top)
  rw [runOn_inFrame]
  generalize runOn x { m with state := (m.state.push tag).2 } = outcome at done ⊢
  obtain ⟨⟨i⟩ | ⟨a⟩, m₁⟩ := outcome
  · exact done
  · obtain ⟨sound₁, same, holds⟩ := done
    obtain ⟨stack, calls⟩ := State.sameControl_iff.mp same
    have fine : m₁.state.popFault? m.state.frames.size = none := State.popFault?_eq_none stack
    dsimp only
    rw [fine]
    refine ⟨sound₁.dropTop, State.sameControl_iff.mpr ⟨?_, ?_⟩, holds⟩
    · rw [State.dropTop_stack, stack]
      rfl
    · rw [State.dropTop_calls, calls]
      rfl

/-- The frame and the record of a call are there when its body is done, and the frame of the
    caller is under them. -/
theorem inCall {x : Eval σ α} (name : String) (h : Guards ctx strict x Q) : Guards ctx strict (Eval.inCall name x) Q := by
  intro m sound
  have called : (m.state.calling name).Sound strict := (sound.pushInside (.call name) .global).restack rfl rfl
  have done := h ⟨m.state.calling name, m.watch⟩ called
  rw [runOn_inCall]
  unfold State.calling at done
  generalize runOn x ⟨(m.state.pushInside (.call name) .global).2.pushCall ⟨name, m.state.top.number, m.state.frames.size⟩,
    m.watch⟩ = outcome at done ⊢
  obtain ⟨⟨i⟩ | ⟨a⟩, m₁⟩ := outcome
  · exact done
  · obtain ⟨sound₁, same, holds⟩ := done
    obtain ⟨stack, calls⟩ := State.sameControl_iff.mp same
    have left : runOn (Eval.leaveCall name m.state.frames.size) m₁ = (.ok (), { m₁ with state := m₁.state.dropTop.popCall }) :=
      runOn_leaveCall_of_control stack (rfl : m.state.stack.headD .global = m.state.top) calls
    dsimp only
    rw [left]
    refine ⟨sound₁.dropTop.restack rfl rfl, State.sameControl_iff.mpr ⟨?_, ?_⟩, holds⟩
    · simp only [State.popCall, State.dropTop_stack, stack]
      rfl
    · simp only [State.popCall, State.dropTop_calls, calls]
      rfl

/-- The frame that a thunk re-enters is on top again when the thunk has been computed, and
    what it is computed to is kept. -/
theorem compute {x : Node → Eval σ Value} (t : ThunkRef)
    (h : ∀ e : Node, e.Stands strict .operand → Guards ctx strict (x e) Value.Plain) :
    Guards ctx strict (Eval.compute t x) Value.Plain := by
  intro m sound
  rw [runOn_compute]
  dsimp only
  cases phase : (m.state.memory.thunk t).phase with
  | forced v => exact ⟨sound, ⟨rfl, rfl⟩, sound.memos t v phase⟩
  | forcing => exact ⟨sound, trivial⟩
  | pending =>
    have inside : t.index < m.state.memory.thunks.size := Memory.lt_of_phase fun v => by rw [phase]; nofun
    have forcing : (m.state.setPhase t .forcing).Sound strict := sound.setPhase nofun
    have computing : (m.state.computing t).Sound strict := forcing.restack rfl rfl
    have done := h _ (sound.expressions t inside) ⟨m.state.computing t, m.watch⟩ computing
    unfold State.computing at done
    dsimp only
    generalize runOn (x (m.state.memory.thunk t).expression)
      ⟨(m.state.setPhase t .forcing).reenter (m.state.memory.thunk t).home, m.watch⟩ = outcome at done ⊢
    obtain ⟨⟨i⟩ | ⟨v⟩, m₁⟩ := outcome
    · exact ⟨done.1.setPhase nofun, done.2.setPhase t .pending⟩
    · obtain ⟨sound₁, same, plain⟩ := done
      obtain ⟨stack, calls⟩ := State.sameControl_iff.mp same
      have fine : m₁.state.popFault? (m.state.memory.thunk t).home.number = none := State.popFault?_eq_none stack
      dsimp only
      rw [fine]
      refine ⟨sound₁.dropTop.setPhase (by rintro w ⟨⟩; exact plain), State.sameControl_iff.mpr ⟨?_, ?_⟩, plain⟩
      · simp only [State.setPhase, State.dropTop_stack, stack]
        rfl
      · simp only [State.setPhase, State.dropTop_calls, calls]
        rfl

/-! ## Events -/

theorem suspend (e : Event) : Guards ctx strict (Eval.suspend ctx e) fun _ => True := by
  intro m sound
  have shown : State.Sound strict { m.state with lastEvent := some e } := sound.restack rfl rfl
  rw [runOn_suspend]
  rcases ctx.observer.onStep m.watch e { m.state with lastEvent := some e } with ⟨w, action⟩
  cases action with
  | proceed => exact ⟨shown, ⟨rfl, rfl⟩, trivial⟩
  | halt => exact ⟨shown, trivial⟩

/-- A node is entered and left, and what happens in between is guarded. -/
theorem bracket {x : Eval σ α} (n : NodeSummary) (h : Guards ctx strict x Q) :
    Guards ctx strict (do
      Eval.enter ctx n
      let a ← x
      Eval.exit ctx n
      Pure.pure a) Q := by
  have entered : Guards ctx strict (Eval.enter ctx n) fun _ => True := by
    refine bind (modify fun s sound => ⟨sound.restack rfl rfl, ⟨rfl, rfl⟩⟩) fun _ _ => ?_
    cases ctx.settings.maxSteps with
    | none => exact suspend _
    | some limit =>
      refine read fun s _ => ?_
      dsimp only
      split
      · exact bind (Q := fun _ => True) (fail rfl) fun _ _ => suspend _
      · exact suspend _
  have left : Guards ctx strict (Eval.exit ctx n) fun _ => True :=
    bind (modify fun s sound => ⟨sound.restack rfl rfl, ⟨rfl, rfl⟩⟩) fun _ _ => suspend _
  exact bind entered fun _ _ => bind h fun a holds => bind left fun _ _ => pure holds

end Guards

/-- When a node has completed, the last event is that it was left. -/
theorem lastEvent_of_visit {ctx : Context σ} {n : Node} {tag : FrameTag} {m m' : Machine σ} {c : Completion} :
    ∀ {fuel : Nat}, runOn (visit ctx fuel n tag) m = (.ok c, m') → m'.state.lastEvent = some (.exit n.summary)
  | 0, done => by cases done
  | fuel + 1, done => by
    obtain ⟨_, m₁, -, formed⟩ := bind_eq_ok.mp (runOn_eq_ok.mp done)
    obtain ⟨c', m₂, -, leaving⟩ := bind_eq_ok.mp formed
    obtain ⟨_, m₃, left, same⟩ := bind_eq_ok.mp leaving
    obtain ⟨-, rfl⟩ := pure_eq_ok.mp same
    have announced := runOn_of_eq_ok left
    rw [runOn_exit, runOn_suspend] at announced
    split at announced
    · cases announced
      rfl
    · cases announced

end Eval
end MiniC
