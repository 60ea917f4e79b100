import MiniC.Proofs.Bracketing
import MiniC.Proofs.Runs

/-!
# Recovery

A task starts at the global frame with nothing left of the tasks before, however they
ended. Whatever ends with a value or an error has left all frames, calls and nodes; every
error that is returned is recorded; and a global name is never lost
(`State.sessions_recover`).
-/

namespace MiniC

namespace State

/-- No name of the global frame is lost. -/
def KeepsGlobals (s s' : State) : Prop := ∀ name, (s.global? name).isSome → (s'.global? name).isSome

/-- No error is recorded and no name of the global frame is lost. -/
structure Retains (s s' : State) : Prop where
  errors : s'.errors = s.errors
  names : s.KeepsGlobals s'

namespace Retains
variable {s s' s'' : State}

theorem still (errors : s'.errors = s.errors) (frames : s'.frames = s.frames) : s.Retains s' :=
  ⟨errors, fun name bound => by rwa [global?, FrameRef.global, frame, frames]⟩

theorem trans (h : s.Retains s') (h' : s'.Retains s'') : s.Retains s'' :=
  ⟨h'.errors.trans h.errors, fun name bound => h'.names name (h.names name bound)⟩

theorem of_calm (change : s.Calm s') : s.Retains s' := ⟨change.errors, change.names⟩

/-- Not even where there is no global frame yet is anything lost by making a frame. -/
theorem pushInside (s : State) (tag : FrameTag) (parent : FrameRef) : s.Retains (s.pushInside tag parent).2 := by
  refine ⟨rfl, fun name bound => ?_⟩
  rw [global?, FrameRef.global, frame_pushInside]
  split
  · rename_i first
    rw [global?, FrameRef.global, frame_outside (Nat.le_of_eq first.symm)] at bound
    cases bound
  · exact bound

theorem dropTop (s : State) : s.Retains s.dropTop :=
  (still rfl rfl : s.Retains { s with stack := s.stack.tail }).trans (of_calm (Calm.dropTop s))

theorem entering (s : State) (n : NodeSummary) : s.Retains (s.entering n) := still rfl rfl

theorem leaving (s : State) (n : NodeSummary) : s.Retains (s.leaving n) := still rfl rfl

theorem calling (s : State) (name : String) : s.Retains (s.calling name) :=
  (pushInside s (.call name) .global).trans (still rfl rfl)

theorem computing (s : State) (t : ThunkRef) : s.Retains (s.computing t) := still rfl rfl

theorem unwind (s : State) : s.Retains s.unwind := (of_calm (Calm.clearAll s s.stack)).trans (still rfl rfl)

theorem beginEvaluation (s : State) : s.Retains s.beginEvaluation := (unwind s).trans (still rfl rfl)

/-- Recovery records the error, and that alone. -/
theorem recover (s : State) (e : EvalError) : State.Retains { s with errors := s.errors.push e } (s.recover e) :=
  (unwind _).trans (still rfl rfl)

/-- A trail records no error and loses no global name on its way. -/
theorem respected : Trail.Respected Retains where
  trans := trans
  calm := of_calm
  count _ _ := still rfl rfl
  entering := entering
  leaving := leaving
  push s tag := pushInside s tag s.top
  calling := calling
  computing := computing
  dropTop := dropTop
  popCall _ := still rfl rfl
  setPhase _ _ _ := still rfl rfl

end Retains

/-- A trail loses no global name on its way. -/
theorem KeepsGlobals.respected : Trail.Respected KeepsGlobals where
  trans h h' name bound := h' name (h name bound)
  calm change := change.names
  count _ _ _ := id
  entering _ _ _ := id
  leaving _ _ _ := id
  push s tag := (Retains.pushInside s tag s.top).names
  calling s name := (Retains.calling s name).names
  computing _ _ _ := id
  dropTop s := (Retains.dropTop s).names
  popCall _ _ := id
  setPhase _ _ _ _ := id

end State

/-! ## Tasks -/

/-- The error that a task returns. -/
def Task.failure? (t : Task) (s : State) : Option EvalError :=
  match t.result s with
  | .error (.error e) => some e
  | _ => none

namespace State

/-- The errors that tasks return, run one after the other. -/
def failures (s : State) : List Task → List EvalError
  | [] => []
  | t :: rest => (t.failure? s).toList ++ failures (t.run s).2 rest

end State

/-- A task records the error that it returns, and no other, and loses no global name. -/
theorem Task.retains (t : Task) (s : State) :
    (t.run s).2.errors.toList = s.errors.toList ++ (t.failure? s).toList ∧
    (t.log s).Along State.KeepsGlobals s (t.run s).2 := by
  have begins := State.Retains.beginEvaluation s
  have recovers (s : State) (e : EvalError) : s.KeepsGlobals (s.recover e) := (State.Retains.recover s e).names
  refine ⟨?_, t.along s State.KeepsGlobals.respected begins.names recovers⟩
  obtain ⟨-, -, trails⟩ := t.trails s
  unfold failure?
  generalize t.result s = result at trails ⊢
  cases result with
  | ok v =>
    obtain ⟨log, s₁, may, trail, left, whole⟩ := trails
    have visit := (Trail.visit t.program.summary may trail).along State.Retains.respected
    rw [left, visit.whole.errors, begins.errors]
    exact (List.append_nil _).symm
  | error i =>
    obtain ⟨s', cut, left⟩ := trails
    have stopped := (cut.stopped.along State.Retains.respected).whole
    have same : s'.errors = s.errors := stopped.errors.trans begins.errors
    rw [left]
    cases i with
    | error e =>
      show (s'.recover e).errors.toList = _
      rw [(State.Retains.recover s' e).errors, Array.toList_push, same]
      rfl
    | _ =>
      show s'.errors.toList = _
      rw [same]
      exact (List.append_nil _).symm

/-- A task shows first that its program is entered, in the state in which it begins, unless it
    is not allowed a single step. -/
theorem Task.begins (t : Task) (s : State) : (t.run s).1 = [] ∧ t.settings.maxSteps = some 0 ∨
    ∃ rest, (t.run s).1 = s.beginEvaluation.entering t.program.summary :: rest := by
  obtain ⟨seen, -, trails⟩ := t.trails s
  generalize t.result s = result at trails
  cases result with
  | ok v =>
    obtain ⟨log, s₁, may, trail, left, whole⟩ := trails
    exact .inr ⟨_, by rw [seen, whole, List.map_cons]⟩
  | error i =>
    obtain ⟨s', cut, -⟩ := trails
    generalize t.log s = log at seen cut
    cases cut with
    | refused never =>
      refine .inl ⟨seen, ?_⟩
      cases limited : t.settings.maxSteps with
      | none => exact absurd (fun _ reached => nomatch limited.symm.trans reached) never
      | some limit =>
        cases limit with
        | zero => rfl
        | succ limit =>
          refine absurd (fun limit' reached => ?_) never
          cases limited.symm.trans reached
          exact Nat.succ_le_succ (Nat.zero_le limit)
    | inside may inner => exact .inr ⟨_, seen⟩
    | leaving may inner => exact .inr ⟨_, seen⟩

/-- A task that is not halted leaves nothing but the global frame. -/
theorem Task.leaves (t : Task) (s : State) (ends : (∃ v, t.result s = .ok v) ∨ ∃ e, t.result s = .error (.error e)) :
    (t.run s).2.chain = [.global] ∧ (t.run s).2.calls = [] ∧ (t.run s).2.nodes = [] := by
  obtain ⟨-, -, trails⟩ := t.trails s
  rcases ends with ⟨v, ended⟩ | ⟨e, ended⟩
  · rw [ended] at trails
    obtain ⟨log, s₁, may, trail, left, -⟩ := trails
    have visit := Trail.visit t.program.summary may trail
    rw [left, State.chain, visit.control.1]
    exact ⟨rfl, visit.control.2, visit.nodes⟩
  · rw [ended] at trails
    obtain ⟨s', -, left⟩ := trails
    rw [left]
    exact ⟨rfl, rfl, rfl⟩

namespace State

theorem errors_after (s : State) (tasks : List Task) :
    (s.after tasks).errors.toList = s.errors.toList ++ s.failures tasks := by
  induction tasks generalizing s with
  | nil => exact (List.append_nil _).symm
  | cons t rest ih =>
    show ((t.run s).2.after rest).errors.toList = _
    rw [ih, (t.retains s).1, List.append_assoc]
    rfl

/-- A session of tasks of any kind on one state, and the task that comes next. It begins at
    the global frame, without calls and steps, in the visit of its program, unless it is not
    allowed a single step; and if it ends with a value or an error, it leaves the global
    frame, no calls and no nodes. The errors recorded are those that the session has
    returned, in order. No global name is lost, from any point to any later one. -/
theorem sessions_recover (s : State) (tasks : List Task) (t : Task) :
    ((t.run (s.after tasks)).1 = [] ∧ t.settings.maxSteps = some 0 ∨
      ∃ first rest, (t.run (s.after tasks)).1 = first :: rest ∧ first.chain = [.global] ∧ first.calls = [] ∧
        first.nodes = [t.program.summary] ∧ first.steps = 1) ∧
    (((∃ v, t.result (s.after tasks) = .ok v) ∨ ∃ e, t.result (s.after tasks) = .error (.error e)) →
      (t.run (s.after tasks)).2.chain = [.global] ∧ (t.run (s.after tasks)).2.calls = [] ∧
        (t.run (s.after tasks)).2.nodes = []) ∧
    (s.after tasks).errors.toList = s.errors.toList ++ s.failures tasks ∧
    (s.history tasks).Pairwise KeepsGlobals := by
  refine ⟨?_, t.leaves _, s.errors_after tasks, ?_⟩
  · rcases t.begins (s.after tasks) with nothing | ⟨rest, shown⟩
    · exact .inl nothing
    · exact .inr ⟨_, rest, shown, rfl, rfl, rfl, rfl⟩
  · refine (history_along (I := fun _ => True) (fun _ _ => id) (fun h h' name bound => h' name (h name bound)) trivial
      fun t _ s _ => ⟨trivial, t.log s, (t.trails s).1, (t.retains s).2⟩).2

/-- A run is halted in a loop of a call, another one fails while it computes a thunk in a
    block, and a third comes to its end. -/
theorem session_of_three :
    let f := Tree.func "int" "f" [] [Tree.whileLoop (Tree.bool true) (Tree.block [Tree.returnValue none])]
    let x := Tree.var "int" "x" (some (Tree.bin .div (Tree.num 1.0) (Tree.num 0.0)))
    let halted : Task := ⟨{}, .haltingAt fun _ s => s.depth == 4, (), 20, ⟨[f, Tree.expr (Tree.call "f" [])], none⟩⟩
    let failing : Task := ⟨{ strategy := .lazy }, .silent, (), 20, ⟨[Tree.block [x, Tree.expr (Tree.ident "x")]], none⟩⟩
    let calling : Task := ⟨{}, .silent, (), 20, ⟨[Tree.expr (Tree.call "f" [])], none⟩⟩
    (seeded.after [halted]).callDepth = 1 ∧
      (calling.run (seeded.after [halted, failing])).2.chain = [.global] ∧
      (seeded.after [halted, failing]).errors.toList = seeded.failures [halted, failing] ∧
      (seeded.failures [halted, failing]).length = 1 := by
  intro f x halted failing calling
  have ends : (calling.result (seeded.after [halted, failing])).isOk = true := by decide +kernel
  obtain ⟨-, leaves, errors, -⟩ := sessions_recover seeded [halted, failing] calling
  rw [show seeded.errors.toList = [] from rfl, List.nil_append] at errors
  refine ⟨by decide +kernel, ?_, errors, by decide +kernel⟩
  cases ended : calling.result (seeded.after [halted, failing]) with
  | error i =>
    rw [ended] at ends
    cases ends
  | ok v => exact (leaves (.inl ⟨v, ended⟩)).1

end State

end MiniC
