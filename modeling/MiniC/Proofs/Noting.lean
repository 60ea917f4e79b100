import MiniC.Proofs.Completions
import MiniC.Proofs.Passage

/-!
# What evaluations note

What an evaluation notes is followed from its parts to the whole (`Eval.Adds`): whatever can
be said of the parts of notes and of how they end passes through every construct
(`Eval.Additive.lockstep`).
-/

namespace MiniC.Eval
open Visited
variable {σ α β : Type}

/-- What an evaluation notes from a machine, and how it ends. -/
def AddsAt (m : Machine (σ × List Visited)) (P : List Visited → Except Interrupt α → Prop)
    (x : Eval (σ × List Visited) α) : Prop :=
  ∃ made, (runOn x m).2.watch.2 = m.watch.2 ++ made ∧ P made (runOn x m).1

/-- What an evaluation notes from any machine, and how it ends. -/
def Adds (P : List Visited → Except Interrupt α → Prop) (x : Eval (σ × List Visited) α) : Prop := ∀ m, AddsAt m P x

variable {P P' : List Visited → Except Interrupt α → Prop} {Q : List Visited → Except Interrupt β → Prop}
variable {x : Eval (σ × List Visited) α} {f : α → Eval (σ × List Visited) β} {m : Machine (σ × List Visited)}

namespace AddsAt

theorem mono (h : AddsAt m P x) (weaker : ∀ made r, P made r → P' made r) : AddsAt m P' x := by
  obtain ⟨made, noted, holds⟩ := h
  exact ⟨made, noted, weaker _ _ holds⟩

theorem and (h : AddsAt m P x) (h' : AddsAt m P' x) : AddsAt m (fun made r => P made r ∧ P' made r) x := by
  obtain ⟨made, noted, holds⟩ := h
  obtain ⟨made', noted', holds'⟩ := h'
  obtain rfl : made = made' := List.append_cancel_left (noted.symm.trans noted')
  exact ⟨made, noted, holds, holds'⟩

theorem quiet (same : (runOn x m).2.watch.2 = m.watch.2) (h : P [] (runOn x m).1) : AddsAt m P x :=
  ⟨[], by rw [same, List.append_nil], h⟩

theorem bind (first : AddsAt m P x) (early : ∀ made i, P made (.error i) → Q made (.error i))
    (second : ∀ made a m', x m = .ok a m' → P made (.ok a) → AddsAt m' (fun more r => Q (made ++ more) r) (f a)) :
    AddsAt m Q (x >>= f) := by
  obtain ⟨made, noted, holds⟩ := first
  have goes (a : α) (m' : Machine (σ × List Visited)) (ended : runOn x m = (.ok a, m')) : x m = .ok a m' := runOn_eq_ok.mp ended
  unfold AddsAt
  rw [runOn_bind]
  generalize runOn x m = outcome at noted holds goes ⊢
  obtain ⟨⟨i⟩ | ⟨a⟩, m'⟩ := outcome
  · exact ⟨made, noted, early made i holds⟩
  · obtain ⟨more, noted', holds'⟩ := second made a m' (goes a m' rfl) holds
    refine ⟨made ++ more, ?_, holds'⟩
    dsimp only at noted ⊢
    rw [noted', noted, List.append_assoc]

end AddsAt

namespace Adds

theorem mono (h : Adds P x) (weaker : ∀ made r, P made r → P' made r) : Adds P' x := fun m => (h m).mono weaker

theorem quiet (same : ∀ m, (runOn x m).2.watch.2 = m.watch.2) (h : ∀ r, P [] r) : Adds P x := fun m => .quiet (same m) (h _)

theorem pure {a : α} (h : P [] (.ok a)) : Adds (σ := σ) P (pure a) := fun _ => .quiet rfl h

theorem stop {i : Interrupt} (h : P [] (.error i)) : Adds (σ := σ) P (throw i) := fun _ => .quiet rfl h

theorem bind (first : Adds P x) (early : ∀ made i, P made (.error i) → Q made (.error i))
    (second : ∀ made a, P made (.ok a) → Adds (fun more r => Q (made ++ more) r) (f a)) : Adds Q (x >>= f) :=
  fun m => (first m).bind early fun made a m' _ holds => second made a holds m'

/-- A frame may turn out to be wrong when it is popped. -/
theorem inFrame (tag : FrameTag) (h : Adds P x) (fault : ∀ made a i, P made (.ok a) → P made (.error i)) :
    Adds P (Eval.inFrame tag x) := by
  intro m
  obtain ⟨made, noted, holds⟩ := h { m with state := (m.state.push tag).2 }
  refine ⟨made, ?_⟩
  rw [runOn_inFrame]
  generalize runOn x { m with state := (m.state.push tag).2 } = outcome at noted holds ⊢
  obtain ⟨⟨i⟩ | ⟨a⟩, m₁⟩ := outcome
  · exact ⟨noted, holds⟩
  · dsimp only
    split
    · exact ⟨noted, fault _ _ _ holds⟩
    · exact ⟨noted, holds⟩

end Adds

/-- The frame and the record of a call may turn out to be wrong when it is left. -/
theorem AddsAt.inCall (name : String) (h : AddsAt ⟨m.state.calling name, m.watch⟩ P x)
    (fault : ∀ made a i, P made (.ok a) → P made (.error i)) : AddsAt m P (Eval.inCall name x) := by
  obtain ⟨made, noted, holds⟩ := h
  refine ⟨made, ?_⟩
  rw [runOn_inCall]
  unfold State.calling at noted holds
  generalize runOn x ⟨(m.state.pushInside (.call name) .global).2.pushCall ⟨name, m.state.top.number, m.state.frames.size⟩,
    m.watch⟩ = outcome at noted holds ⊢
  obtain ⟨⟨i⟩ | ⟨a⟩, m₁⟩ := outcome
  · exact ⟨noted, holds⟩
  · obtain ⟨result, s, left, -⟩ := exists_runOn_leaveCall name m.state.frames.size m₁.state
    have ended := left m₁.watch
    dsimp only at noted ended ⊢
    rw [ended]
    cases result with
    | error e => exact ⟨noted, fault _ _ _ holds⟩
    | ok _ => exact ⟨noted, holds⟩

/-! ## From the parts to the whole -/

/-- What passes from the parts of an evaluation to the whole. -/
structure Additive (P : (α : Type) → List Visited → Except Interrupt α → Prop) : Prop where
  nil {α : Type} (r : Except Interrupt α) : P α [] r
  append {α β : Type} {made more : List Visited} {a : α} {r : Except Interrupt β} :
    P α made (.ok a) → P β more r → P β (made ++ more) r
  early {α β : Type} {made : List Visited} {i : Interrupt} : P α made (.error i) → P β made (.error i)

namespace Additive
variable {P : (α : Type) → List Visited → Except Interrupt α → Prop} (A : Additive P)
include A

theorem fault {α β : Type} {made : List Visited} {a : α} (h : P α made (.ok a)) (i : Interrupt) : P β made (.error i) := by
  simpa using A.append h (A.nil (.error i))

theorem bind (first : Adds (P α) x) (second : ∀ a, Adds (P β) (f a)) : Adds (P β) (x >>= f) :=
  Adds.bind first (fun _ _ => A.early) fun _ a holds => (second a).mono fun _ _ => A.append holds

theorem compute {x : Node → Eval (σ × List Visited) Value} (t : ThunkRef) (h : ∀ n, Adds (P Value) (x n)) :
    Adds (P Value) (Eval.compute t x) := by
  intro m
  unfold AddsAt
  rw [runOn_compute]
  dsimp only
  split
  · exact ⟨[], (List.append_nil _).symm, A.nil _⟩
  · exact ⟨[], (List.append_nil _).symm, A.nil _⟩
  · obtain ⟨made, noted, holds⟩ := h (m.state.memory.thunk t).expression
      { m with state := (m.state.setPhase t .forcing).reenter (m.state.memory.thunk t).home }
    refine ⟨made, ?_⟩
    generalize runOn (x _) _ = outcome at noted holds ⊢
    obtain ⟨⟨i⟩ | ⟨v⟩, m₁⟩ := outcome
    · exact ⟨noted, holds⟩
    · dsimp only
      split
      · exact ⟨noted, A.fault holds _⟩
      · exact ⟨noted, holds⟩

omit A in
theorem suspended (ctx : Context σ) (e : Event) (m : Machine (σ × List Visited)) :
    (runOn (suspend ctx.besideVisits e) m).2.watch.2 = m.watch.2 := by
  rw [runOn_suspend]
  dsimp only [Context.besideVisits]
  rw [Observer.besideVisits_onStep]
  generalize ctx.observer.onStep m.watch.1 e { m.state with lastEvent := some e } = answer
  obtain ⟨w, action⟩ := answer
  cases action with
  | proceed => rfl
  | halt => rfl

omit A in
theorem entered (ctx : Context σ) (n : NodeSummary) (m : Machine (σ × List Visited)) :
    (runOn (enter ctx.besideVisits n) m).2.watch.2 = m.watch.2 := by
  rw [runOn_enter]
  split
  · rfl
  · exact suspended ctx _ _

theorem bracket (ctx : Context σ) (n : NodeSummary) (h : Adds (P α) x) :
    Adds (P α) (do enter ctx.besideVisits n; let a ← x; exit ctx.besideVisits n; Pure.pure a) := by
  refine A.bind (.quiet (entered ctx n) A.nil) fun _ => A.bind h fun a => ?_
  refine A.bind (.quiet (fun m => ?_) A.nil) fun _ => .pure (A.nil _)
  rw [runOn_exit]
  exact suspended ctx _ _

theorem attempt (fault? : State → Option EvalError) (change : State → State) :
    Adds (σ := σ) (P Unit) (Eval.attempt fault? change) := by
  refine .quiet (fun m => ?_) A.nil
  rw [runOn_attempt]
  split
  · rfl
  · rfl

theorem checkDepth (limit : Nat) (span : Option Span) : Adds (σ := σ) (P Unit) (Eval.checkDepth limit span) := by
  refine .quiet (fun m => ?_) A.nil
  rw [runOn_checkDepth]
  split
  · rfl
  · rfl

/-- What is additive passes through every construct. -/
theorem lockstep (ctx : Context σ) :
    Lockstep ctx.besideVisits ctx.besideVisits (· = ·) (fun x _ => Adds (P _) x) fun x _ => Adds (P _) x where
  strategy := rfl
  pure _ := .pure (A.nil _)
  bind := A.bind
  fail _ := .stop (A.nil _)
  stray _ _ := fun m => Adds.stop (A.nil _) m
  read h := fun m => h m.state m.state (.refl _) m
  sameValues v w := fun m => by
    unfold Eval.sameValues AddsAt
    rw [runOn_state_bind]
    cases m.state.memory.same? v w with
    | none => exact Adds.stop (A.nil _) m
    | some same => exact Adds.pure (A.nil _) m
  newArray _ := .quiet (fun _ => rfl) A.nil
  newClosure _ _ _ := .quiet (fun _ => rfl) A.nil
  delay _ := .quiet (fun _ => rfl) A.nil
  setElement _ _ _ _ := .quiet (fun _ => rfl) A.nil
  write _ := .quiet (fun _ => rfl) A.nil
  declare _ _ _ _ := A.attempt _ _
  declareGlobal _ _ _ _ := A.attempt _ _
  redefine _ _ _ := .quiet (fun _ => rfl) A.nil
  assign _ _ _ := A.attempt _ _
  inFrame {_ _ _ tag} _ h := h.inFrame tag fun _ _ _ holds => A.fault holds _
  inCall name span h := A.bind (A.checkDepth _ span) fun _ m => (h _).inCall name fun _ _ _ holds => A.fault holds _
  compute := A.compute
  bracket := A.bracket ctx
  after := A.bind
  quit := .stop (A.nil _)
  forget := id
  fuels_zero h := .inl h.symm
  fuels_succ h := ⟨_, h.symm, rfl⟩

end Additive

theorem additive_tidy : Additive fun α => Visited.Tidy (α := α) where
  nil r := by
    cases r with
    | ok a => exact List.forall_mem_nil _
    | error i => exact .inl (List.forall_mem_nil _)
  append normal tidy := Tidy.append normal tidy
  early cut := cut

end MiniC.Eval
