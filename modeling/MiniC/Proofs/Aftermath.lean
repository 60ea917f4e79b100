import MiniC.Proofs.Raised

/-!
# What a failed computation leaves behind

The computation of a value that fails gives nothing up: the frames, the calls and the nodes in
which it has failed stay until a program is run. What is computed next in the global frame does
not see them; but the calls go on counting towards their limit. So a value is computed as if
nothing had been left, unless there are too many calls now (`State.forced_after_failure`); and
that happens (`State.too_deep_after_failure`).
-/

namespace MiniC
variable {ρ σ τ : Type}

/-! ## Sessions -/

namespace State

/-- The states of a session between the requests to it: programs are run, errors are recovered
    from, global names are declared, expressions are put off and thunks of the scope computed. -/
inductive Served : State → Prop
  | seeded : Served .seeded
  | run {s : State} (before : Served s) (t : Task) : Served (t.run s).2
  | recover {s : State} (before : Served s) (e : EvalError) : Served (s.recover e)
  | declare {s s' : State} (before : Served s) {name : String} {kind : Kind} {v : Value} {span : Option Span}
      (simple : v.Simple) (declared : s.declareGlobal name kind v span = .ok s') : Served s'
  | delay {s : State} (before : Served s) (n : Node) {home : FrameRef} (exist : ∃ k < s.frames.size, home = .numbered k) :
      Served { s with memory := (s.memory.newThunk n home).2 }
  | force {s : State} (before : Served s) {σ : Type} (ctx : Context σ) (fuel : Nat) {q : ThunkRef} (w : σ)
      (made : q.index < s.memory.thunks.size) (seen : (s.memory.thunk q).home ∈ s.scope) :
      Served (Eval.forceOn ctx fuel (.lazy q) ⟨s, w⟩).2.state

/-- Nothing is being evaluated. -/
structure AtRest (s : State) : Prop where
  stack : s.stack = []
  calls : s.calls = []
  nodes : s.nodes = []

theorem declareGlobal_eq_ok {s s' : State} {name : String} {kind : Kind} {v : Value} {span : Option Span}
    (declared : s.declareGlobal name kind v span = .ok s') : s' = s.bind .global name ⟨kind, v⟩ := by
  unfold declareGlobal unlessFault at declared
  split at declared
  · cases declared
  · cases declared
    rfl

namespace Served
variable {s : State}

theorem grounded (h : s.Served) : s.Grounded := by
  induction h with
  | seeded => exact .seeded
  | run before t ih => exact Eval.grounded_execute ⟨t.settings, t.observer.keeping⟩ ih t.fuel t.program
  | recover before e ih => exact ih.recover e
  | declare before simple declared ih =>
    rw [declareGlobal_eq_ok declared]
    exact ih.bind _ _ _
  | delay before n exist ih => exact ih.newThunk n exist
  | force before ctx fuel w made seen ih => exact Eval.grounded_forceOn ih fuel _

theorem proper (h : s.Served) : ∃ past, s.Proper (fun _ => true) past := by
  have permitted (n : Node) : n.all (fun _ => true) = true := n.all_of_forall fun _ => rfl
  induction h with
  | seeded => exact ⟨[], proper_seeded _⟩
  | run before t ih =>
    obtain ⟨past, h⟩ := ih
    obtain ⟨log, run, -⟩ := t.run_passes lenient_true (fun n _ => permitted n) h
    exact ⟨_, run.proper h⟩
  | recover before e ih =>
    obtain ⟨past, h⟩ := ih
    exact ⟨past, h.recover e⟩
  | declare before simple declared ih =>
    obtain ⟨past, h⟩ := ih
    have settled : Value.Settled (fun _ => true) past _ := simple.settled
    rw [declareGlobal_eq_ok declared]
    exact ⟨past, h.bind (settled.plain.own _ _) (h.binds settled)⟩
  | delay before n exist ih =>
    obtain ⟨past, h⟩ := ih
    exact ⟨past, h.newThunk (permitted n) _⟩
  | @force s before σ ctx fuel q w made seen ih =>
    obtain ⟨past, h⟩ := ih
    have V : Eval.TracesVisits (fun _ => true) ctx (Eval.visitor ctx fuel) := Eval.Traces.visit lenient_true fuel
    have held : s.Held (.lazy q) := ⟨_, seen, fun p same => by cases same; exact ⟨made, rfl⟩⟩
    have done := Eval.Traces.force (b := true) V (.lazy q) past ⟨s, w⟩ h held
    unfold Eval.forceOn
    generalize Eval.runOn _ _ = ended at done ⊢
    obtain ⟨⟨i⟩ | ⟨v⟩, m⟩ := ended
    · obtain ⟨log, broken, -⟩ := done
      exact ⟨_, broken.proper h⟩
    · obtain ⟨log, passage, -⟩ := done
      exact ⟨_, passage.proper h⟩

end Served

/-! ## What is left -/

/-- Recovery keeps all that later computations can see. -/
theorem Accords.recover (s : State) (e : EvalError) : s.Accords (s.recover e) := by
  obtain ⟨size, outermost, -⟩ := State.clearAll_frames { s with errors := s.errors.push e } s.stack
  exact ⟨(s.recover_memory e).symm, outermost.symm, size.symm, (State.clearAll_output { s with errors := s.errors.push e } s.stack).symm⟩

/-- Frames that are still to be made are not on the stack. -/
theorem Grounded.not_held {s : State} (h : s.Grounded) {n : Nat} (outside : s.frames.size ≤ n) :
    s.stack.any (·.number == n) = false := by
  refine List.any_eq_false.mpr fun q member => ?_
  obtain ⟨k, inside, rfl⟩ := h.stack q member
  rw [beq_iff_eq]
  exact Nat.ne_of_lt (Nat.lt_of_lt_of_le inside outside)

end State

namespace Eval

/-! ## Thunks of the global frame -/

section outer
variable {settings : Settings} (unlimited : settings.maxSteps = none) {s t : State} (accords : s.Accords t)
  (depth : s.callDepth = t.callDepth) (grounded : s.Grounded) (grounded' : t.Grounded) {q : ThunkRef}
  (made : q.index < s.memory.thunks.size) (outer : (s.memory.thunk q).home = .global)

/-- A thunk of the global frame is computed from two states that agree in all that it can see. -/
def computedTwice : Footing where
  settings := settings
  left := s.computing q
  right := t.computing q
  near r := r.isSince s.frames.size = true
  counts := False
  halts := True
  limited limited := absurd unlimited limited
  outermost := s.global_since
  fresh n outside := FrameRef.isSince_numbered.mpr (.inr outside)
  inside := by
    show (s.memory.thunk q).home.isSince s.frames.size = true
    rw [outer]
    rfl
  top := congrArg (fun m => (Memory.thunk m q).home) accords.memory
  held r near inner := by
    cases r with
    | detached k => cases near
    | numbered n =>
      have outside := (FrameRef.isSince_numbered.mp near).resolve_left inner
      have made' : q.index < t.memory.thunks.size := accords.memory ▸ made
      have free := (grounded.computing (grounded.homes q made)).not_held (n := n) outside
      exact free.trans ((grounded'.computing (grounded'.homes q made')).not_held (n := n) (accords.size ▸ outside)).symm
  depth := depth

/-- Both computations begin alike. -/
theorem computedTwice_at (L : s.Lexical) :
    (computedTwice unlimited accords depth grounded grounded' made outer).At [] [] (s.computing q) (t.computing q) where
  memory := congrArg (·.setPhase q .forcing) accords.memory
  output := accords.output
  steps := False.elim
  frames := accords.size
  detached := grounded.whole.trans grounded'.whole.symm
  grown := Nat.le_refl _
  same _ := accords.frame_since
  closed := L.encloses.2
  apart _ _ := ⟨rfl, rfl⟩
  errors := ⟨rfl, rfl⟩
  nearby := nofun
  stack := rfl
  stack' := rfl
  calls := rfl
  calls' := rfl

section runs
variable {past : Log} (proper : s.Proper (fun _ => true) past) (rest : s.stack = []) (fuel : Nat)
  {o : Observer σ} (proceeds : o.Proceeds) {o' : Observer τ} (proceeds' : o'.Proceeds) (w : σ) (w' : τ)
include proper rest proceeds proceeds'

/-- Its expression is evaluated alike. -/
theorem computing_agrees (e : Node) :
    let F := computedTwice unlimited accords depth grounded grounded' made outer
    let evaluate {σ : Type} (o : Observer σ) : Eval σ Value :=
      do (visitor ⟨settings, o⟩ (fuel + 1)).forceWithin fuel (← (visitor ⟨settings, o⟩ (fuel + 1)).expression e)
    let ran := runOn (evaluate o) ⟨s.computing q, w⟩
    let ran' := runOn (evaluate o') ⟨t.computing q, w'⟩
    ran.1 = ran'.1 ∧ F.Agree ran.2.state ran'.2.state ∧ ∀ v, ran.1 = .ok v → F.At [] [] ran.2.state ran'.2.state := by
  intro F evaluate
  have uniform : Uniform settings @evaluate := fun _ _ _ _ L =>
    L.forget (L.computed (L.visitors (rfl : fuel + 1 = fuel + 1)) rfl e)
  have V : TracesVisits (fun _ => true) ⟨settings, .logging⟩ (visitor ⟨settings, .logging⟩ (fuel + 1)) :=
    Traces.visit lenient_true (fuel + 1)
  have seen : (s.memory.thunk q).home ∈ s.scope := by
    rw [outer, State.scope, State.top, rest]
    exact List.mem_cons_self
  have near : (s.computing q).top.isSince s.frames.size = true := F.inside
  exact Uniform.agrees (F := F) uniform (Traces.computed V fuel (.inside (e.all_of_forall fun _ => rfl))) (fun _ => id) trivial
    (proper.computing seen) trivial (proper.lexical.encloses.still rfl fun _ => rfl) near
    (computedTwice_at unlimited accords depth grounded grounded' made outer proper.lexical) proceeds proceeds' w w'

omit made in
include unlimited accords depth grounded grounded' outer in
/-- A thunk of the global frame comes to the same from two states that agree in all that it
    can see and are equally deep in calls. -/
theorem forceOn_agrees :
    let ran := forceOn ⟨settings, o⟩ fuel (.lazy q) ⟨s, w⟩
    let ran' := forceOn ⟨settings, o'⟩ fuel (.lazy q) ⟨t, w'⟩
    ran.1 = ran'.1 ∧ ran.2.state.Accords ran'.2.state := by
  cases fuel with
  | zero => exact ⟨rfl, accords⟩
  | succ fuel =>
    let evaluate {σ : Type} (o : Observer σ) (e : Node) : Eval σ Value :=
      do (visitor ⟨settings, o⟩ (fuel + 1)).forceWithin fuel (← (visitor ⟨settings, o⟩ (fuel + 1)).expression e)
    show (runOn (compute q (evaluate o)) ⟨s, w⟩).1 = (runOn (compute q (evaluate o')) ⟨t, w'⟩).1 ∧
      (runOn (compute q (evaluate o)) ⟨s, w⟩).2.state.Accords (runOn (compute q (evaluate o')) ⟨t, w'⟩).2.state
    rw [runOn_compute, runOn_compute, ← accords.memory]
    dsimp only
    split
    · exact ⟨rfl, accords⟩
    · exact ⟨rfl, accords⟩
    · rename_i waits
      have made : q.index < s.memory.thunks.size := Memory.lt_of_phase fun v => waits ▸ nofun
      obtain ⟨result, agree, at_end⟩ := computing_agrees unlimited accords depth grounded grounded' made outer proper rest fuel
        proceeds proceeds' w w' (s.memory.thunk q).expression
      unfold State.computing at result agree at_end
      rw [← accords.memory] at result agree at_end
      generalize runOn _ (⟨_, w⟩ : Machine σ) = ended at result agree at_end ⊢
      generalize runOn _ (⟨_, w'⟩ : Machine τ) = ended' at result agree at_end ⊢
      obtain ⟨⟨i⟩ | ⟨v⟩, m⟩ := ended
      · obtain ⟨_, m'⟩ := ended'
        cases result
        exact ⟨rfl, agree.accords.setPhase q .pending⟩
      · obtain ⟨_, m'⟩ := ended'
        cases result
        have h := at_end v rfl
        have popped : m.state.popFault? (s.memory.thunk q).home.number = none := State.popFault?_eq_none h.stack
        have popped' : m'.state.popFault? (s.memory.thunk q).home.number = none := by
          rw [accords.memory]
          exact State.popFault?_eq_none h.stack'
        dsimp only
        rw [popped, popped']
        exact ⟨rfl, agree.accords.dropTop.setPhase q _⟩

end runs
end outer
end Eval

/-! ## Further calls -/

namespace Gap
variable {g : Gap} (none : g.size = 0)
include none

theorem ref_of_empty (r : FrameRef) : g.ref r = r := by
  cases r with
  | numbered n => simp [ref, number, none]
  | detached k => rfl

theorem frame_of_empty (f : Frame) : g.frame f = f := frame_eq fun r _ => ref_of_empty none r

theorem memory_of_empty (m : Memory) : g.memory m = m := memory_eq fun r _ => ref_of_empty none (m.thunk r).home

theorem Alike.eq {i i' : Interrupt} (h : g.Alike i i') : i = i' := by
  cases h with
  | same => rfl
  | stray label outlined outlined' =>
    rw [memory_of_empty none] at outlined'
    cases outlined.symm.trans outlined'
    rfl

theorem Same.accords {s t : State} (h : g.Same s t) : s.Accords t := by
  refine ⟨?_, ?_, ?_, h.output.symm⟩
  · rw [h.memory, memory_of_empty none]
  · have same := h.frame .global
    rw [ref_of_empty none, frame_of_empty none] at same
    exact same.symm
  · rw [h.frames, none]
    rfl

end Gap

namespace State
variable {s t : State}

theorem Raised.calls (rest : s.calls = []) : ∀ calls : List CallBoundary, s.Raised { s with calls }
  | [] => by
    rw [← rest]
    exact .refl
  | c :: calls => .call c (Raised.calls rest calls)

/-- Where further calls are in progress a thunk comes to the same, or else there are too many. -/
theorem forced_deeper {past : Log} (proper : s.Proper (fun _ => true) past) (grounded : s.Grounded) (none : s.calls = [])
    (calls : List CallBoundary) (q : ThunkRef) (settings : Settings) (fuel : Nat) {o : Observer σ} (proceeds : o.Proceeds)
    {o' : Observer τ} (proceeds' : o'.Proceeds) (w : σ) (w' : τ) :
    let ran := Eval.forceOn ⟨settings, o⟩ fuel (.lazy q) ⟨s, w⟩
    let ran' := Eval.forceOn ⟨settings, o'⟩ fuel (.lazy q) ⟨{ s with calls }, w'⟩
    (ran.1 = ran'.1 ∧ ran.2.state.Accords ran'.2.state) ∨ ∃ limit span, ran'.1 = .error (.error (.callDepth limit span)) := by
  intro ran ran'
  have covers := (Raised.calls none calls).covers
  have empty : (s.gap { s with calls }).size = 0 := Nat.sub_self _
  have ended : (overlay proper.lexical covers).Outcome [] [] ran ran' :=
    Eval.outcome_forceOn settings proceeds proceeds' q ⟨s, w⟩ ⟨_, w'⟩ (overlay_at proper.lexical covers grounded) fuel
  clear_value ran ran'
  cases ended with
  | ok h => exact .inl ⟨rfl, h.toSame.accords empty⟩
  | error h alike => exact .inl ⟨congrArg _ (alike.eq empty), h.toSame.accords empty⟩
  | tooDeep => exact .inr ⟨_, _, rfl⟩

/-- What a failed computation has left is not seen by the next one. In any state of a session
    let any thunk be computed, however that ends, and take any state of a session at rest that
    has the same global frame, arrays, thunks and output as what is left, and as many frames.
    Then a value, if it is no thunk or one of the global frame, is computed from what is left as
    it is from the state at rest, with the same result, and leaves the same again; unless calls
    were left in progress, and there are too many now. This holds without a limit on steps and
    under observers that go on. -/
theorem forced_after_failure (served : s.Served) (ctx : Context ρ) (fuel : Nat) (q : ThunkRef) (w : ρ)
    {r : State} (served' : r.Served) (rest : r.AtRest) (accords : (Eval.forceOn ctx fuel (.lazy q) ⟨s, w⟩).2.state.Accords r)
    (v : Value) (outer : ∀ p, v = .lazy p → (r.memory.thunk p).home = .global) (settings : Settings)
    (unlimited : settings.maxSteps = none) (fuel' : Nat) {o : Observer σ} (proceeds : o.Proceeds) {o' : Observer τ}
    (proceeds' : o'.Proceeds) (w₁ : σ) (w₂ : τ) :
    let left := (Eval.forceOn ctx fuel (.lazy q) ⟨s, w⟩).2.state
    let ran := Eval.forceOn ⟨settings, o⟩ fuel' v ⟨left, w₁⟩
    let ran' := Eval.forceOn ⟨settings, o'⟩ fuel' v ⟨r, w₂⟩
    (ran.1 = ran'.1 ∧ ran.2.state.Accords ran'.2.state) ∨
      left.calls ≠ [] ∧ ∃ limit span, ran.1 = .error (.error (.callDepth limit span)) := by
  intro left ran ran'
  have grounded : left.Grounded := Eval.grounded_forceOn served.grounded fuel _
  obtain ⟨past, proper⟩ := served'.proper
  have back : r.Accords left := accords.symm
  clear_value left
  cases v with
  | lazy p =>
    have outer := outer p rfl
    by_cases none : left.calls = []
    · have depth : r.callDepth = left.callDepth := by rw [callDepth, callDepth, rest.calls, none]
      obtain ⟨same, agree⟩ := Eval.forceOn_agrees unlimited back depth served'.grounded grounded outer proper rest.stack fuel'
        proceeds' proceeds w₂ w₁
      exact .inl ⟨same.symm, agree.symm⟩
    · -- in between, the state at rest with the calls that are left
      let t : State := { r with calls := left.calls }
      have proper' : t.Proper (fun _ => true) past := proper.restack rfl rfl proper.stacked
      have grounded' : t.Grounded := served'.grounded.still rfl rfl (fun _ => id) rfl
      have between : t.Accords left := ⟨back.memory, back.outermost, back.size, back.output⟩
      obtain ⟨same, agree⟩ := Eval.forceOn_agrees unlimited between rfl grounded' grounded outer proper' rest.stack fuel'
        proceeds' proceeds w₂ w₁
      rcases forced_deeper proper served'.grounded rest.calls left.calls p settings fuel' proceeds' proceeds' w₂ w₂ with
        ⟨same', agree'⟩ | ⟨limit, span, deep⟩
      · exact .inl ⟨(same'.trans same).symm, (agree'.trans agree).symm⟩
      · exact .inr ⟨none, limit, span, same.symm.trans deep⟩
  | _ =>
    cases fuel' with
    | zero => exact .inl ⟨rfl, back.symm⟩
    | succ fuel' => exact .inl ⟨rfl, back.symm⟩

/-- Two functions are declared, of which `f` fails, and a call of each is put off. -/
def callsPutOff (settings : Settings) : State :=
  let f := Tree.func "bool" "f" [] [Tree.expr (Tree.ident "x")]
  let g := Tree.func "bool" "g" [] [Tree.returnValue (some (Tree.bool true))]
  let task : Task := ⟨settings, .silent, (), 20, ⟨[f, g], none⟩⟩
  ["f", "g"].foldl (fun s name => { s with memory := (s.memory.newThunk (Tree.call name []) .global).2 }) (task.run seeded).2

/-- Where two calls are allowed, `g` can be called after the call of `f` has failed, as it can
    after recovery. -/
theorem forced_after_failed_call :
    let settings : Settings := { maxCallDepth := 2 }
    let forced (q : Nat) (s : State) := Eval.forceOn ⟨settings, (Observer.silent : Observer Unit)⟩ 20 (.lazy ⟨q⟩) ⟨s, ()⟩
    let s := callsPutOff settings
    let left := (forced 0 s).2.state
    let r := left.recover (.undefinedVariable "x" none)
    s.AtRest ∧ (forced 0 s).1.isOk = false ∧ left.callDepth = 1 ∧ r.AtRest ∧ left.Accords r ∧ (forced 1 left).1.isOk = true ∧
      (forced 1 left).1 = (forced 1 r).1 ∧ (forced 1 left).2.state.Accords (forced 1 r).2.state := by
  intro settings forced s left r
  have served : s.Served := ((Served.run .seeded _).delay _ ⟨0, by decide +kernel, rfl⟩).delay _ ⟨0, by decide +kernel, rfl⟩
  have rest : s.AtRest := ⟨by decide +kernel, by decide +kernel, by decide +kernel⟩
  have made : (⟨0⟩ : ThunkRef).index < s.memory.thunks.size := by decide +kernel
  have seen : (s.memory.thunk ⟨0⟩).home ∈ s.scope := by decide +kernel
  have fails : (forced 0 s).1.isOk = false := by decide +kernel
  have depth : left.callDepth = 1 := by decide +kernel
  have outer : (r.memory.thunk ⟨1⟩).home = .global := by decide +kernel
  have succeeds : (forced 1 left).1.isOk = true := by decide +kernel
  have rest' : r.AtRest := ⟨rfl, rfl, rfl⟩
  have accords : left.Accords r := .recover left _
  have proceeds : (Observer.silent : Observer Unit).Proceeds := fun _ _ _ => rfl
  -- the state is evaluated above, and stays a name from here on
  clear_value s
  refine ⟨rest, fails, depth, rest', accords, succeeds, ?_⟩
  rcases forced_after_failure served ⟨settings, .silent⟩ 20 ⟨0⟩ () ((served.force _ 20 () made seen).recover _) rest' accords
      (.lazy ⟨1⟩) (fun p same => by cases same; exact outer) settings rfl 20 proceeds proceeds () () with
    same | ⟨-, limit, span, deep⟩
  · exact same
  · change (forced 1 left).1 = _ at deep
    rw [deep] at succeeds
    cases succeeds

/-- Where a single call is allowed, `g` cannot be called after the call of `f` has failed. After
    recovery it can. -/
theorem too_deep_after_failure :
    let settings : Settings := { maxCallDepth := 1 }
    let forced (q : Nat) (s : State) := Eval.forceOn ⟨settings, (Observer.silent : Observer Unit)⟩ 20 (.lazy ⟨q⟩) ⟨s, ()⟩
    let s := callsPutOff settings
    let left := (forced 0 s).2.state
    let r := left.recover (.undefinedVariable "x" none)
    s.AtRest ∧ (forced 0 s).1.isOk = false ∧ r.AtRest ∧ left.Accords r ∧
      (∃ span, (forced 1 left).1 = .error (.error (.callDepth 1 span))) ∧
      (forced 1 r).1.toOption.map Value.truthy = some true := by
  intro settings forced s left r
  have rest : s.AtRest := ⟨by decide +kernel, by decide +kernel, by decide +kernel⟩
  have fails : (forced 0 s).1.isOk = false := by decide +kernel
  have deep : (forced 1 left).1 = .error (.error (.callDepth 1 none)) := by decide +kernel
  have value : (forced 1 r).1.toOption.map Value.truthy = some true := by decide +kernel
  have rest' : r.AtRest := ⟨rfl, rfl, rfl⟩
  -- the state is evaluated above, and stays a name from here on
  clear_value s
  exact ⟨rest, fails, rest', .recover left _, ⟨none, deep⟩, value⟩

end State
end MiniC
