import MiniC.Proofs.Forcing

/-!
# Constructs that both runs evaluate

Every construct is evaluated by the lazy run along with the strict one, if its parts are.
-/

namespace MiniC

/-! ## Related results -/

theorem relateds_later {s s' : State} {C C' : Companion} {vs ws : List Value} (h : List.Forall₂ (Related s C) vs ws)
    (after : Later s C s' C') : List.Forall₂ (Related s' C') vs ws := h.imp fun _ _ related => related.later after

theorem relateds_solo {s : State} {C : Companion} {vs ws : List Value} (h : List.Forall₂ (Related s C) vs ws) :
    List.Forall₂ (Related s none) vs vs :=
  List.forall₂_same.mpr fun _ member => .alone (exists_of_mem_left h member).choose_spec.2.has

theorem relateds_along {s : State} {W : Pairing} {l : State} {vs ws : List Value} (has : ∀ v ∈ vs, s.memory.Has v)
    (same : List.Forall₂ W.Same vs ws) : List.Forall₂ (Related s (some (W, l))) vs ws := by
  induction same with
  | nil => exact .nil
  | cons head _ ih =>
    obtain ⟨first, others⟩ := List.forall_mem_cons.mp has
    exact .cons (.along first head) (ih others)

theorem Completed.weaken {k k' : Nat} {s : State} {C : Companion} {c c' : Completion} (h : Completed k s C c c')
    (le : k ≤ k') : Completed k' s C c c' := by
  cases h with
  | normal promised => exact .normal (promised.weaken le)
  | jump j span => exact .jump j span
  | returned related => exact .returned related

theorem Concluded.later {s s' : State} {C C' : Companion} {c c' : Completion} (h : Concluded s C c c')
    (after : Later s C s' C') : Concluded s' C' c c' := by
  cases h with
  | normal related => exact .normal (related.later after)
  | jump j span => exact .jump j span
  | returned related => exact .returned (related.later after)

theorem Completed.solo {k : Nat} {s : State} {C : Companion} {c c' : Completion} (h : Completed k s C c c') :
    Completed k s none c c := by
  cases h with
  | normal promised => exact .normal (.alone promised.has)
  | jump j span => exact .jump j span
  | returned related => exact .returned (.alone related.has)

theorem Concluded.solo {s : State} {C : Companion} {c c' : Completion} (h : Concluded s C c c') : Concluded s none c c := by
  cases h with
  | normal related => exact .normal (.alone related.has)
  | jump j span => exact .jump j span
  | returned related => exact .returned (.alone related.has)

namespace Sim
variable {settings : Settings} {N : Nat} {f : Facts} {s : State} {C : Companion}

/-- Code that is not orderly is not evaluated. -/
theorem refused {α : Type} {x : Eval Unit α} {y : Lazily α} {Q : State → Companion → α → α → Prop} :
    Sim settings N .refused s C x y Q :=
  ⟨fun fit => absurd fit.ok nofun, fun _ _ _ fit => absurd fit.ok nofun⟩

/-- By itself the strict run need not be followed. -/
theorem solo {α : Type} {x : Eval Unit α} {y y' : Lazily α} {Q : State → Companion → α → α → Prop}
    (h : Sim settings N f s none x y Q) : Sim settings N f s none x y' Q := ⟨h.alone, nofun⟩

/-- A completion with a computed value. -/
theorem concludes {x : Eval Unit Value} {y : Lazily Value} (h : Sim settings N f s C x y Related) :
    Sim settings N f s C (do return .normal (← x)) (fun limit fuel => do return .normal (← y limit fuel))
      fun s' C' c c' => Completed (s'.steps + 1) s' C' c c' :=
  h.last fun _ _ _ _ _ related => .pure (.normal (.alone related.has)) (.normal (related.promised _))

/-- A result may be ignored. -/
theorem discarded {α : Type} {x : Eval Unit α} {y : Lazily α} {Q : State → Companion → α → α → Prop}
    (h : Sim settings N f s C x y Q) :
    Sim settings N f s C (discard x) (fun limit fuel => discard (y limit fuel)) fun _ _ _ _ => True := by
  have dropped (x : Eval Unit α) : discard x = x >>= fun _ => Pure.pure () := map_eq_pure_bind (Function.const α ()) x
  simp only [dropped]
  exact h.last fun _ _ _ _ _ _ => .pure trivial trivial

/-- What does not depend on the state is the same for both runs. -/
theorem constant {α : Type} (x : Except EvalError α) :
    Sim settings N .idle s C (Eval.ofExcept x) (fun _ _ => Eval.ofExcept x) fun _ _ a b => a = b ∧ x = .ok a :=
  .ofExcept (fun _ found => ⟨rfl, found⟩) fun _ _ _ a found => ⟨a, found, rfl, found⟩

theorem scalar {x : Except EvalError Value} (h : ∀ v, x = .ok v → v.Scalar) :
    Sim settings N .idle s C (Eval.ofExcept x) (fun _ _ => Eval.ofExcept x) Related :=
  .ofExcept (fun v found => .scalar (h v found)) fun _ _ _ v found => ⟨v, found, .scalar (h v found)⟩

/-- Related values are fitted to a kind alike. -/
theorem cast {v w : Value} (related : Related s C v w) (kind : Kind) (span span' : Option Span) :
    Sim settings N .idle s C (Eval.ofExcept (v.cast kind span)) (fun _ _ => Eval.ofExcept (w.cast kind span'))
      fun s' C' a b => Related s' C' a b ∧ a.Bindable := by
  refine .ofExcept (fun a fitted => ⟨.alone (related.has.cast fitted), Value.bindable_cast fitted⟩) fun W l goes a fitted => ?_
  obtain ⟨b, fitted', same⟩ := (related.same W l goes).cast span' fitted
  exact ⟨b, fitted', goes ▸ .along (related.has.cast fitted) same, Value.bindable_cast fitted⟩

theorem castResult {v w : Value} (related : Related s C v w) (kind : Kind) (span : Option Span) :
    Sim settings N .idle s C (Eval.ofExcept (v.castResult kind span)) (fun _ _ => Eval.ofExcept (w.castResult kind span))
      Related := by
  refine .ofExcept (fun a fitted => .alone (related.has.castResult fitted)) fun W l goes a fitted => ?_
  obtain ⟨b, fitted', same⟩ := (related.same W l goes).castResult fitted
  exact ⟨b, fitted', goes ▸ .along (related.has.castResult fitted) same⟩

theorem casts {vs ws : List Value} (relateds : List.Forall₂ (Related s C) vs ws) (kind : Kind) (span : Option Span) :
    Sim settings N .idle s C (vs.mapM fun v => Eval.ofExcept (v.cast kind span))
      (fun _ _ => ws.mapM fun w => Eval.ofExcept (w.cast kind span)) fun s' C' vs ws => List.Forall₂ (Related s' C') vs ws := by
  induction vs generalizing s C ws with
  | nil =>
    cases relateds
    exact .pure .nil .nil
  | cons v vs ih =>
    cases relateds with
    | cons related relateds =>
      simp only [List.mapM_cons]
      refine (cast related kind span span).first fun s₁ C₁ a b later first => ?_
      refine (ih (relateds_later relateds later)).first fun s₂ C₂ as bs later' others => ?_
      have first := first.1.later later'
      exact .pure (.cons (.alone first.has) (relateds_solo others)) (.cons first others)

/-- Related values are compared alike. -/
theorem sameValues {v v' w w' : Value} (related : Related s C v w) (related' : Related s C v' w') :
    Sim settings N .idle s C (Eval.sameValues v v') (fun _ _ => Eval.sameValues w w') fun _ _ a b => a = b := by
  refine .read fun C' l later reads sober => ?_
  cases answer : s.memory.same? v v' with
  | none => exact .stop _
  | some a =>
    cases C' with
    | none => exact (Sim.pure (b := a) rfl rfl).solo
    | some companion =>
      obtain ⟨W, l₀⟩ := companion
      obtain ⟨rfl, heaps⟩ := reads W l₀ rfl
      have same := (related.later later).same W l₀ rfl
      have same' := (related'.later later).same W l₀ rfl
      rw [heaps.same?_agree related.has related'.has same same' answer]
      exact .pure rfl rfl

theorem unary {v w : Value} (op : UnaryOp) (span : Option Span) (related : Related s C v w) :
    Sim settings N .idle s C (Eval.ofExcept (op.apply v span)) (fun _ _ => Eval.ofExcept (op.apply w span)) Related := by
  refine .ofExcept (fun a found => .scalar (op.scalar_apply found)) fun W l goes a found => ?_
  exact ⟨a, (related.same W l goes).unary.trans found, .scalar (op.scalar_apply found)⟩

theorem applyBinary {v v' w w' : Value} (op : BinaryOp) (span : Option Span) (related : Related s C v w)
    (related' : Related s C v' w') :
    Sim settings N .idle s C (Eval.applyBinary op v v' span) (fun _ _ => Eval.applyBinary op w w' span) Related := by
  unfold Eval.applyBinary
  rw [related.like.toNumber?, related'.like.toNumber?]
  split
  · exact scalar fun _ => BinaryOp.scalar_onNumbers
  · split
    · exact (sameValues related related').first fun _ _ a b _ same => same ▸ .pure (.scalar (.bool a)) (.scalar (.bool a))
    · exact (sameValues related related').first fun _ _ a b _ same => same ▸ .pure (.scalar (.bool _)) (.scalar (.bool _))
    · exact .fail _

/-- Rounds that go along with each other, any number of times. -/
theorem rounds {round : Eval Unit (Option Completion)} {round' : Lazily (Option Completion)}
    (h : ∀ s' C', Sim settings N f s' C' round round' fun s C => Option.Rel (Concluded s C)) (k j : Nat) :
    Sim settings N f.again s C (Eval.rounds round k) (fun limit fuel => Eval.rounds (round' limit fuel) (fuel - j))
      Concluded := by
  induction k generalizing s C j with
  | zero => exact .stop _
  | succ k ih =>
    have once : Sim settings N (f.seq f.again) s C (Eval.rounds round (k + 1))
        (fun limit fuel => Eval.rounds (round' limit fuel) (fuel - (j + 1) + 1)) Concluded := by
      refine (h s C).bind fun s' C' o o' _ related => ?_
      cases related with
      | none => exact ih (j + 1)
      | some concluded => exact .pure concluded.solo concluded
    refine (once.weaken (Facts.seq_again_within f)).eventually (j + 1) fun limit fuel long => ?_
    obtain ⟨m, rfl⟩ := Nat.exists_eq_add_of_le long
    rw [show j + 1 + m - j = m + 1 by omega, show j + 1 + m - (j + 1) = m by omega]

/-- One half of a round after the other, unless the loop has ended. -/
theorem halves {x y : Eval Unit (Option Completion)} {x' y' : Lazily (Option Completion)} {g : Facts}
    (first : Sim settings N f s C x x' fun s C => Option.Rel (Concluded s C))
    (second : ∀ s' C', Sim settings N g s' C' y y' fun s C => Option.Rel (Concluded s C)) :
    Sim settings N (f.seq g) s C (do match ← x with | none => y | ended => Pure.pure ended)
      (fun limit fuel => do match ← x' limit fuel with | none => y' limit fuel | ended => Pure.pure ended)
      fun s C => Option.Rel (Concluded s C) := by
  refine first.bind fun s₁ C₁ o o' _ related => ?_
  cases related with
  | none => exact second s₁ C₁
  | some concluded => exact .pure (.some concluded.solo) (.some concluded)

end Sim

namespace Visits
variable {settings : Settings} {N : Nat} {inner : Visitor Unit} {inner' : Nat → Nat → Visitor Unit}
variable (V : Visits settings N inner inner')
include V

section expressions
variable {s : State} {C : Companion}

theorem holds (n : Node) : Sim settings N n.facts s C (inner.holds n) (fun limit fuel => (inner' limit fuel).holds n)
    fun _ _ a b => a = b :=
  (V.actual n).last fun _ _ _ _ _ related => .pure rfl related.like.truthy.symm

theorem actuals (nodes : List Node) : Sim settings N (factsOfAll nodes) s C (inner.actuals nodes)
    (fun limit fuel => (inner' limit fuel).actuals nodes) fun s' C' vs ws => List.Forall₂ (Related s' C') vs ws := by
  induction nodes generalizing s C with
  | nil => exact .pure .nil .nil
  | cons n rest ih =>
    unfold Visitor.actuals
    simp only [List.mapM_cons]
    refine (V.actual n).bind fun s₁ C₁ v w later related => ?_
    refine ih.last fun s₂ C₂ vs ws later' relateds => ?_
    have related := related.later later'
    exact .pure (.cons (.alone related.has) (relateds_solo relateds)) (.cons related relateds)

theorem element (base index : Node) (span : Option Span) :
    Sim settings N (base.facts.seq index.facts) s C (inner.element base index span)
      (fun limit fuel => (inner' limit fuel).element base index span)
      fun s' C' a b => Related s' C' (.array a.1) (.array b.1) ∧ a.2 = b.2 := by
  refine (V.actual base).bind fun s₁ C₁ v w later related => ?_
  refine (V.actual index).last fun s₂ C₂ v' w' later' related' => ?_
  have related := related.later later'
  rw [related'.like.toIndex?]
  cases related.like with
  | array r q =>
    cases v'.toIndex? with
    | none => exact .fail _
    | some i =>
      dsimp only
      refine .read fun C₃ l later₃ reads sober => ?_
      by_cases inside : i < s₂.memory.length r
      · rw [if_pos inside]
        have related := related.later later₃
        have done : Sim settings N .idle s₂ C₃ (pure (r, i)) (fun _ _ => pure (q, i)) fun s' C' a b =>
          Related s' C' (.array a.1) (.array b.1) ∧ a.2 = b.2 := .pure ⟨.alone related.has, rfl⟩ ⟨related, rfl⟩
        cases C₃ with
        | none => exact done.solo
        | some companion =>
          obtain ⟨W, l₀⟩ := companion
          obtain ⟨rfl, heaps⟩ := reads W l₀ rfl
          rw [heaps.length_of_same related.has (related.same W l₀ rfl), if_pos inside]
          exact done
      · rw [if_neg inside]
        exact .fail _
  | _ => exact .fail _

theorem statements (body : List Node) {v w : Value} (promised : Promised s.steps s C v w) :
    Sim settings N (factsOfAll body) s C (inner.statements v body) (fun limit fuel => (inner' limit fuel).statements w body)
      fun s' C' c c' => Completed s'.steps s' C' c c' := by
  induction body generalizing s C v w with
  | nil => exact .pure (.normal (.alone promised.has)) (.normal promised)
  | cons n rest ih =>
    refine (V.visit n .block).bind fun s' C' c c' _ completed => ?_
    cases completed with
    | normal promised => exact ih promised
    | jump j span => exact .pure (.jump j span) (.jump j span)
    | returned related => exact .pure (.returned (.alone related.has)) (.returned related)

theorem block (body : List Node) (tag : FrameTag) :
    Sim settings N (factsOfAll body).inside s C (inner.block body tag) (fun limit fuel => (inner' limit fuel).block body tag)
      Concluded := by
  refine .inFrame tag (fun _ _ _ _ _ _ later h => h.later later) fun s' C' => ?_
  refine (V.statements body ((Related.scalar .void).promised _)).last fun s₁ C₁ c c' _ completed => ?_
  cases completed with
  | normal promised =>
    refine (V.force promised).last fun _ _ v w _ related => ?_
    exact .pure (.normal (.alone related.has)) (.normal related)
  | jump j span => exact .pure (.jump j span) (.jump j span)
  | returned related => exact .pure (.returned (.alone related.has)) (.returned related)

theorem branch (test consequent : Node) (alternate : Option Node) :
    Sim settings N (test.facts.seq (consequent.facts.either (factsOfOption alternate))) s C
      (inner.branch test consequent alternate) (fun limit fuel => (inner' limit fuel).branch test consequent alternate)
      fun s' C' c c' => Completed s'.steps s' C' c c' := by
  refine (V.holds test).bind fun s' C' b b' _ same => ?_
  subst same
  cases b with
  | true => exact (V.visit consequent .block).weaken (Facts.within_either_left _ _)
  | false =>
    refine Sim.weaken ?_ (Facts.within_either_right _ _)
    cases alternate with
    | some n => exact V.visit n .block
    | none => exact .pure (.normal ((Related.scalar .void).promised _)) (.normal ((Related.scalar .void).promised _))

theorem choice (test consequent alternate : Node) :
    Sim settings N (test.facts.seq (consequent.facts.either alternate.facts)) s C
      (do return .normal (← inner.actual (if ← inner.holds test then consequent else alternate)))
      (fun limit fuel => do
        return .normal (← (inner' limit fuel).actual (if ← (inner' limit fuel).holds test then consequent else alternate)))
      fun s' C' c c' => Completed (s'.steps + 1) s' C' c c' := by
  refine (V.holds test).bind fun s' C' b b' _ same => ?_
  subst same
  cases b with
  | true => exact ((V.actual consequent).weaken (Facts.within_either_left _ _)).concludes
  | false => exact ((V.actual alternate).weaken (Facts.within_either_right _ _)).concludes

theorem logical (op : LogicalOp) (left right : Node) :
    Sim settings N (left.facts.seq right.facts) s C (inner.logical op left right)
      (fun limit fuel => (inner' limit fuel).logical op left right) Related := by
  refine (V.holds left).bind fun s' C' b b' _ same => ?_
  subst same
  have decided (b : Bool) : Sim settings N right.facts s' C' (pure (.bool b)) (fun _ _ => pure (.bool b)) Related :=
    .pure (.scalar (.bool b)) (.scalar (.bool b))
  have other : Sim settings N right.facts s' C' (do return .bool (← inner.holds right))
      (fun limit fuel => do return .bool (← (inner' limit fuel).holds right)) Related :=
    (V.holds right).last fun _ _ b _ _ same => same ▸ .pure (.scalar (.bool b)) (.scalar (.bool b))
  cases op <;> cases b
  · exact decided false
  · exact other
  · exact other
  · exact decided true

theorem sequence (expressions : List Node) {v w : Value} (promised : Promised s.steps s C v w) :
    Sim settings N (factsOfAll expressions) s C (inner.sequence v expressions)
      (fun limit fuel => (inner' limit fuel).sequence w expressions) Related := by
  induction expressions generalizing s C v w with
  | nil => exact V.force promised
  | cons n rest ih => exact (V.expression n).bind fun s' C' v w _ promised => ih promised

end expressions

/-! ## Loops -/

section loops
variable {s : State} {C : Companion}

theorem loopTest (test : Node) : Sim settings N test.facts s C (inner.loopTest test)
    (fun limit fuel => (inner' limit fuel).loopTest test) fun s' C' => Option.Rel (Concluded s' C') := by
  refine (V.holds test).last fun s' C' b b' _ same => ?_
  subst same
  cases b with
  | true => exact .pure .none .none
  | false => exact .pure (.some (.normal (.scalar .void))) (.some (.normal (.scalar .void)))

theorem loopBody (body : Node) (kind : LoopKind) : Sim settings N body.facts s C (inner.loopBody body kind)
    (fun limit fuel => (inner' limit fuel).loopBody body kind) fun s' C' => Option.Rel (Concluded s' C') := by
  refine (V.visit body (.loop kind)).last fun s' C' c c' _ completed => ?_
  cases completed with
  | normal promised => exact .pure .none .none
  | jump j span =>
    cases j with
    | continueLoop => exact .pure .none .none
    | breakLoop => exact .pure (.some (.normal (.scalar .void))) (.some (.normal (.scalar .void)))
  | returned related => exact .pure (.some (.returned (.alone related.has))) (.some (.returned related))

theorem whileLoop (test body : Node) : Sim settings N (test.facts.seq body.facts).again s C (inner.whileLoop test body)
    (fun limit fuel => (inner' limit fuel).whileLoop test body) Concluded := by
  have round (s' : State) (C' : Companion) :=
    Sim.halves (V.loopTest (s := s') (C := C') test) fun _ _ => V.loopBody body .whileLoop
  refine (Sim.rounds round inner.fuel 0).eventually 0 fun limit fuel _ => ?_
  unfold Visitor.whileLoop
  rw [V.fuel]
  rfl

theorem doLoop (body test : Node) : Sim settings N (body.facts.seq test.facts).again s C (inner.doLoop body test)
    (fun limit fuel => (inner' limit fuel).doLoop body test) Concluded := by
  have round (s' : State) (C' : Companion) :=
    Sim.halves (V.loopBody (s := s') (C := C') body .doLoop) fun _ _ => V.loopTest test
  refine (Sim.rounds round inner.fuel 0).eventually 0 fun limit fuel _ => ?_
  unfold Visitor.doLoop
  rw [V.fuel]
  rfl

theorem forTest (test : Option Node) : Sim settings N (factsOfOption test) s C (inner.forTest test)
    (fun limit fuel => (inner' limit fuel).forTest test) fun s' C' => Option.Rel (Concluded s' C') := by
  cases test with
  | some n => exact V.loopTest n
  | none => exact .pure .none .none

theorem forRound (test update : Option Node) (body : Node) :
    Sim settings N ((factsOfOption test).seq (body.facts.seq (factsOfOption update))) s C (inner.forRound test update body)
      (fun limit fuel => (inner' limit fuel).forRound test update body) fun s' C' => Option.Rel (Concluded s' C') := by
  refine (V.forTest test).bind fun s₁ C₁ o o' _ related => ?_
  cases related with
  | some concluded => exact .pure (.some concluded.solo) (.some concluded)
  | none =>
    refine (V.loopBody body .forLoop).bind fun s₂ C₂ o o' _ related => ?_
    cases related with
    | some concluded => exact .pure (.some concluded.solo) (.some concluded)
    | none =>
      cases update with
      | none => exact .pure .none .none
      | some n => exact (V.expression n).discarded.last fun _ _ _ _ _ _ => .pure .none .none

theorem forLoop (start test update : Option Node) (body : Node) :
    Sim settings N ((factsOfOption start).seq
        ((factsOfOption test).seq (body.facts.seq (factsOfOption update))).again).inside s C
      (inner.forLoop start test update body) (fun limit fuel => (inner' limit fuel).forLoop start test update body)
      Concluded := by
  refine .inFrame _ (fun _ _ _ _ _ _ later h => h.later later) fun s' C' => ?_
  have looped (s' : State) (C' : Companion) :
      Sim settings N ((factsOfOption test).seq (body.facts.seq (factsOfOption update))).again s' C'
        (Eval.rounds (inner.forRound test update body) inner.fuel)
        (fun limit fuel => Eval.rounds ((inner' limit fuel).forRound test update body) (inner' limit fuel).fuel) Concluded := by
    refine (Sim.rounds (fun _ _ => V.forRound test update body) inner.fuel 0).eventually 0 fun limit fuel _ => ?_
    rw [V.fuel]
    rfl
  cases start with
  | none =>
    have whole := looped s' C'
    rwa [← Facts.idle_seq (Facts.again _)] at whole
  | some n => exact (V.visit n .block).discarded.bind fun s₁ C₁ _ _ _ _ => looped s₁ C₁

end loops

/-! ## Declarations -/

section declarations
variable {s : State} {C : Companion}

theorem arrayLength (size : Node) (span : Option Span) : Sim settings N size.facts s C (inner.arrayLength size span)
    (fun limit fuel => (inner' limit fuel).arrayLength size span) fun _ _ a b => a = b := by
  refine (V.actual size).last fun s' C' v w _ related => ?_
  cases related.like with
  | number x =>
    dsimp only
    split
    · split
      · exact .fail _
      · exact .pure rfl rfl
    · exact .fail _
  | _ => exact .fail _

theorem initialElements (element : Kind) (length : Nat) (initial : Node) (span : Option Span) :
    Sim settings N initial.facts s C (inner.initialElements element length initial span)
      (fun limit fuel => (inner' limit fuel).initialElements element length initial span)
      fun s' C' vs ws => List.Forall₂ (Related s' C') vs ws := by
  refine (V.actual initial).last fun s' C' v w later related => ?_
  cases related.like with
  | array r q =>
    dsimp only
    refine .read fun C₂ l later' reads sober => ?_
    have related := related.later later'
    have has := sober.closed.elements r
    have fitted {ws : List Value} (relateds : List.Forall₂ (Related s' C₂) (s'.memory.elements r).toList ws) :
        Sim settings N .idle s' C₂
          (if length < (s'.memory.elements r).toList.length then do
            Eval.fail (.type (.excessElements (s'.memory.elements r).toList.length length) span)
            (s'.memory.elements r).toList.mapM fun v => Eval.ofExcept (v.cast element span)
          else (s'.memory.elements r).toList.mapM fun v => Eval.ofExcept (v.cast element span))
          (fun _ _ => if length < ws.length then do
              Eval.fail (.type (.excessElements ws.length length) span)
              ws.mapM fun w => Eval.ofExcept (w.cast element span)
            else ws.mapM fun w => Eval.ofExcept (w.cast element span))
          fun s' C' vs ws => List.Forall₂ (Related s' C') vs ws := by
      rw [← relateds.length_eq]
      split
      · exact .fails fun _ _ ran => by
          obtain ⟨_, _, failed, -⟩ := Eval.bind_eq_ok.mp ran
          exact Eval.fail_ne_ok failed
      · exact .casts relateds element span
    cases C₂ with
    | none => exact (fitted (List.forall₂_same.mpr fun v member => .alone (has v member))).solo
    | some companion =>
      obtain ⟨W, l₀⟩ := companion
      obtain ⟨rfl, heaps⟩ := reads W l₀ rfl
      have same := heaps.elements_of_same related.has (related.same W l₀ rfl)
      exact fitted (relateds_along (fun v member => has v member) same)
  | _ => exact .fail _

theorem declaredElements (element : Kind) (size : Node) (initial : Option Node) (span : Option Span) :
    Sim settings N (size.facts.seq (factsOfOption initial)) s C (inner.declaredElements element size initial span)
      (fun limit fuel => (inner' limit fuel).declaredElements element size initial span)
      fun s' C' vs ws => List.Forall₂ (Related s' C') vs.toList ws.toList := by
  refine (V.arrayLength size _).bind fun s' C' length length' _ same => ?_
  subst same
  have filled {s : State} {C : Companion} {vs ws : List Value} (relateds : List.Forall₂ (Related s C) vs ws) :
      List.Forall₂ (Related s C) (vs.toArray ++ Array.replicate (length - vs.length) element.zero).toList
        (ws.toArray ++ Array.replicate (length - ws.length) element.zero).toList := by
    have zero : Related s C element.zero element.zero := .scalar element.scalar_zero
    rw [← relateds.length_eq]
    simp only [Array.toList_append, Array.toList_replicate]
    refine List.rel_append relateds ?_
    exact List.forall₂_same.mpr fun v member => List.eq_of_mem_replicate member ▸ zero
  cases initial with
  | none => exact .pure (filled .nil) (filled .nil)
  | some n =>
    refine (V.initialElements element length n _).last fun s₁ C₁ vs ws _ relateds => ?_
    exact .pure (filled (relateds_solo relateds)) (filled relateds)

theorem declaredArray (element : Kind) (size : Node) (initial : Option Node) (span : Option Span) :
    Sim settings N (size.facts.seq (factsOfOption initial)) s C (inner.declaredArray element size initial span)
      (fun limit fuel => (inner' limit fuel).declaredArray element size initial span)
      fun s' C' v w => Related s' C' v w ∧ v.Bindable := by
  simp only [Visitor.declaredArray_eq]
  refine (V.declaredElements element size initial span).last fun s₁ C₁ vs ws _ relateds => ?_
  refine (Sim.newArray relateds).last fun s₂ C₂ r q _ related => ?_
  exact .pure ⟨.alone related.has, nofun⟩ ⟨related, nofun⟩

end declarations
end Visits

theorem Value.Scalar.bindable {v : Value} (h : v.Scalar) : v.Bindable := by cases h <;> nofun

theorem Node.declaredNames_eq {id : Node} {name : String} {kind : Kind} (found : id.declared = .ok (name, kind)) :
    id.declaredNames = [name] := by
  unfold declaredNames
  rw [found]

namespace Sim
variable {settings : Settings} {N : Nat} {s : State} {C : Companion}

/-- A name is declared with a plain value. -/
theorem declarePlain {name : String} {kind : Kind} {span : Option Span} {v w : Value} (related : Related s C v w)
    (bindable : v.Bindable) : Sim settings N (.declaring [name]) s C (Eval.declare name kind v span)
      (fun _ _ => Eval.declare name kind w span) fun _ _ _ _ => True :=
  declare related.has bindable fun W l goes =>
    ⟨.plain (related.same W l goes), (related.same W l goes).plain_right.own l _⟩

end Sim

namespace Visits
variable {settings : Settings} {N : Nat} {inner' : Nat → Nat → Visitor Unit} {fuel : Nat}
variable (V : Visits settings N (Eval.visitor settings.strictly fuel) inner')
include V

section declarations
variable {s : State} {C : Companion}

theorem declarator (d : Declarator) (span : Option Span) : Sim settings N d.facts s C
    ((Eval.visitor settings.strictly fuel).declarator .strict d span)
    (fun limit fuel => (inner' limit fuel).declarator .lazy d span) fun _ _ _ _ => True := by
  obtain ⟨id, initial, size, loc⟩ := d
  refine (Sim.constant id.declared).first fun s₁ C₁ found found' _ ⟨same, known⟩ => ?_
  subst same
  obtain ⟨name, kind⟩ := found
  have names := Node.declaredNames_eq known
  dsimp only
  split
  · exact .fails fun _ _ ran => by
      obtain ⟨_, _, failed, -⟩ := Eval.bind_eq_ok.mp ran
      exact Eval.fail_ne_ok failed
  · cases size with
    | some size =>
      have facts : Declarator.facts ⟨id, initial, some size, loc⟩ =
          size.facts.seq ((factsOfOption initial).seq (.declaring id.declaredNames)) := by
        cases initial <;> rfl
      rw [facts, names]
      refine Sim.weaken ?_ (Facts.seq_assoc_within _ _ _)
      exact (V.declaredArray kind size initial _).bind fun s₂ C₂ v w _ ⟨related, bindable⟩ =>
        .declarePlain related bindable
    | none =>
      cases initial with
      | none =>
        show Sim settings N (.declaring id.declaredNames) _ _ _ _ _
        rw [names]
        exact .declarePlain (.scalar kind.scalar_zero) kind.scalar_zero.bindable
      | some initial =>
        show Sim settings N (initial.facts.delay.seq (.declaring id.declaredNames)) _ _ _ _ _
        rw [names]
        exact V.delay.bind fun s₂ C₂ v w _ ⟨has, bindable, bound⟩ => .declare has bindable bound

theorem declarators (span : Option Span) (ds : List Declarator) : Sim settings N (factsOfDeclarators ds) s C
    ((Eval.visitor settings.strictly fuel).declarators .strict span ds)
    (fun limit fuel => (inner' limit fuel).declarators .lazy span ds) fun _ _ _ _ => True := by
  induction ds generalizing s C with
  | nil => exact .pure trivial trivial
  | cons d rest ih => exact (V.declarator d span).bind fun s' C' _ _ _ _ => ih

end declarations
end Visits

namespace Sim
variable {settings : Settings} {N : Nat} {s : State} {C : Companion}

theorem declareFunction (id : Node) (params : List Node) (body : Node) (span : Option Span) :
    Sim settings N (.declaringFunction id.declaredNames body.facts) s C (Eval.declareFunction id params body span)
      (fun _ _ => Eval.declareFunction id params body span) fun _ _ _ _ => True := by
  refine (constant id.declared).first fun s₁ C₁ found found' _ ⟨same, known⟩ => ?_
  subst same
  obtain ⟨name, kind⟩ := found
  rw [Node.declaredNames_eq known]
  refine (newClosure (some name) params body).first fun s₂ C₂ v w _ ⟨related, c, closure, code⟩ => ?_
  subst closure code
  exact declareGlobal related

theorem bindParams (ps : List Param) (span : Option Span) {vs ws : List Value} (relateds : List.Forall₂ (Related s C) vs ws) :
    Sim settings N (.declaring (ps.map (·.name))) s C (Eval.bindParams span (ps.zip vs))
      (fun _ _ => Eval.bindParams span (ps.zip ws)) fun _ _ _ _ => True := by
  induction ps generalizing s C vs ws with
  | nil => exact .pure trivial trivial
  | cons p ps ih =>
    cases relateds with
    | nil => exact .pure trivial trivial
    | @cons v w vs ws related relateds =>
      have both : (Facts.declaring [p.name]).seq (.declaring (ps.map (·.name))) = .declaring ((p :: ps).map (·.name)) := rfl
      refine (cast related p.kind span span).first fun s₁ C₁ v w later ⟨fitted, bindable⟩ => ?_
      have relateds := relateds_later relateds later
      rw [← both]
      exact (declarePlain fitted bindable).bind fun s₂ C₂ _ _ later _ => ih (relateds_later relateds later)

theorem bodyValue {c c' : Completion} (completed : Completed s.steps s C c c') :
    Sim settings N .idle s C (Eval.bodyValue c) (fun _ _ => Eval.bodyValue c')
      fun s' C' v w => Promised s'.steps s' C' v w := by
  cases completed with
  | normal promised => exact .pure (.alone promised.has) promised
  | jump j span => exact .fail _
  | returned related => exact .pure (.alone related.has) (related.promised _)

/-- The output does not matter to any evaluation. -/
theorem write (text : String) :
    Sim settings N .idle s C (Eval.modify (·.write text)) (fun _ _ => Eval.modify (·.write text)) fun _ _ _ _ => True :=
  change (·.write text) (fun _ => ⟨rfl, rfl, rfl, rfl, Nat.le_refl _⟩) rfl fun _ _ _ => rfl

theorem callBuiltin (f : Builtin) (span : Option Span) {vs ws : List Value} (relateds : List.Forall₂ (Related s C) vs ws) :
    Sim settings N .idle s C (Eval.callBuiltin f vs span) (fun _ _ => Eval.callBuiltin f ws span) Related := by
  have applied : Sim settings N .idle s C (Eval.ofExcept (f.apply vs span)) (fun _ _ => Eval.ofExcept (f.apply ws span))
      fun _ _ a b => a = b ∧ a.1.Scalar := by
    refine .ofExcept (fun a found => ⟨rfl, f.scalar_apply found⟩) fun W l goes a found => ?_
    have same : List.Forall₂ W.Same vs ws := relateds.imp fun _ _ related => related.same W l goes
    exact ⟨a, Pairing.Same.call same found, rfl, f.scalar_apply found⟩
  refine applied.first fun s₁ C₁ a b _ ⟨same, scalar⟩ => ?_
  subst same
  exact (write a.2).last fun _ _ _ _ _ _ => .pure (.scalar scalar) (.scalar scalar)

end Sim

/-- What a call of a function may do inside its frame. -/
def Closure.facts (c : Closure) : Facts := (Facts.declaring (c.params.map (·.name))).seq c.body.facts

namespace Visits
variable {settings : Settings} {N : Nat} {inner : Visitor Unit} {inner' : Nat → Nat → Visitor Unit}
variable (V : Visits settings N inner inner')
include V

section calls
variable {s : State} {C : Companion}

theorem callClosure (limit : Nat) (name : String) (kind : Kind) (span : Option Span) {c d : Closure} {vs ws : List Value}
    (related : Related s C (.closure c) (.closure d)) (relateds : List.Forall₂ (Related s C) vs ws)
    (ok : c.body.facts.ok = true) (functions : c.body.facts.functions = []) :
    Sim settings N .idle s C (inner.callClosure limit name c kind vs span)
      (fun limit fuel => (inner' limit fuel).callClosure limit name d kind ws span) Related := by
  obtain ⟨params, body⟩ : d.params = c.params ∧ d.body = c.body := by
    cases related.like with
    | closure _ params body => exact ⟨params, body⟩
  unfold Visitor.callClosure
  rw [params, body, ← relateds.length_eq]
  have proceeds : Sim settings N .idle s C
      (do
        Eval.checkDepth limit span
        Eval.inCall name do
          Eval.bindParams span (c.params.zip vs)
          let v ← inner.force (← Eval.bodyValue (← inner.node c.body))
          Eval.ofExcept (v.castResult kind span))
      (fun limit fuel => do
        Eval.checkDepth limit span
        Eval.inCall name do
          Eval.bindParams span (c.params.zip ws)
          let v ← (inner' limit fuel).force (← Eval.bodyValue (← (inner' limit fuel).node c.body))
          Eval.ofExcept (v.castResult kind span)) Related := by
    refine (Sim.checkDepth limit span).first fun s₁ C₁ _ _ later _ => ?_
    have relateds := relateds_later relateds later
    have fine : c.facts.ok = true :=
      Facts.seq_ok.mpr ⟨rfl, ok, List.forall_mem_nil _, List.forall_mem_nil _⟩
    refine Sim.inCall (f := c.facts) name fine functions (fun _ _ _ _ _ _ later h => h.later later) fun s₂ C₂ later => ?_
    refine (Sim.bindParams c.params span (relateds_later relateds later)).bind fun s₃ C₃ _ _ _ _ => ?_
    refine (V.visit c.body .block).last fun s₄ C₄ b b' _ completed => ?_
    refine (Sim.bodyValue completed).first fun s₅ C₅ v w _ promised => ?_
    exact (V.force promised).first fun _ _ v w _ related => .castResult related kind span
  split
  · exact .fails fun _ _ ran => by
      obtain ⟨_, _, failed, -⟩ := Eval.bind_eq_ok.mp ran
      exact Eval.fail_ne_ok failed
  · exact proceeds

end calls
end Visits
end MiniC
