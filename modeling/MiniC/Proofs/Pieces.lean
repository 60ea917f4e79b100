import MiniC.Proofs.Confinement
import MiniC.Proofs.Footing
import MiniC.Proofs.Trail

/-!
# Programs run in pieces

A session runs one program after the other. Where a new evaluation begins, whatever the
one before has counted is forgotten, and all that programs can see is kept. So what is run
in two pieces goes as it does in one (`Task.pieces_agree`), if nothing is put off across
the seam and nothing counts the steps.
-/

namespace MiniC
variable {σ τ α : Type}

/-! ## The seam -/

/-- States that differ in nothing that programs can see. -/
structure State.Matches (s t : State) : Prop where
  memory : s.memory = t.memory
  frames : s.frames = t.frames
  detached : s.detached = t.detached
  output : s.output = t.output
  errors : s.errors = t.errors

/-- A state in which nothing is evaluated. -/
def State.Idle (s : State) : Prop := s.stack = [] ∧ s.calls = []

namespace State.Matches
variable {s s' t : State}

theorem trans (h : s.Matches s') (h' : s'.Matches t) : s.Matches t :=
  ⟨h.memory.trans h'.memory, h.frames.trans h'.frames, h.detached.trans h'.detached, h.output.trans h'.output,
    h.errors.trans h'.errors⟩

theorem frame (h : s.Matches t) (r : FrameRef) : s.frame r = t.frame r := by
  cases r with
  | numbered n => rw [State.frame, State.frame, h.frames]
  | detached k => rw [State.frame, State.frame, h.detached]

/-- States in which every frame is the same match. -/
theorem of_agree {F : Footing} (near : ∀ r, F.near r) (left : F.left.Matches F.right) (h : F.Agree s t) : s.Matches t where
  memory := h.memory
  frames := Array.ext h.frames fun n inside inside' => by
    have same := h.same (.numbered n) (near _)
    simpa [State.frame, Array.getD, inside, inside'] using same
  detached := Array.ext h.detached fun k inside inside' => by
    have same := h.same (.detached k) (near _)
    simpa [State.frame, Array.getD, inside, inside'] using same
  output := h.output
  errors := by rw [h.errors.1, h.errors.2, left.errors]

/-- Nothing is to be given up where nothing is evaluated. -/
theorem beginEvaluation (idle : s.Idle) : s.beginEvaluation.Matches s := by
  have same : s.clearAll s.stack = s := by
    rw [idle.1]
    rfl
  unfold State.beginEvaluation State.unwind
  rw [same]
  exact ⟨rfl, rfl, rfl, rfl, rfl⟩

end State.Matches

/-- States that are the same but for frames that no one refers to, once nothing is evaluated. -/
structure State.Resembles (s t : State) : Prop extends s.Accords t where
  errors : s.errors = t.errors

theorem State.Matches.resembles {s t : State} (h : s.Matches t) : s.Resembles t :=
  ⟨⟨h.memory, h.frame .global, congrArg Array.size h.frames, h.output⟩, h.errors⟩

namespace State.Resembles
variable {s t : State}

/-- The frames that are given up are those that no one refers to. -/
theorem recover (h : s.Matches t) (e : EvalError) : (s.recover e).Resembles (t.recover e) := by
  obtain ⟨size, outermost, -⟩ := State.clearAll_frames { s with errors := s.errors.push e } s.stack
  obtain ⟨size', outermost', -⟩ := State.clearAll_frames { t with errors := t.errors.push e } t.stack
  refine ⟨⟨by simp [h.memory], outermost.trans ((h.frame .global).trans outermost'.symm),
    size.trans ((congrArg Array.size h.frames).trans size'.symm), ?_⟩, ?_⟩
  · have cleared' := State.clearAll_output { t with errors := t.errors.push e } t.stack
    exact (State.clearAll_output _ _).trans (h.output.trans cleared'.symm)
  · have cleared := (State.Calm.clearAll { s with errors := s.errors.push e } s.stack).errors
    have cleared' := (State.Calm.clearAll { t with errors := t.errors.push e } t.stack).errors
    exact cleared.trans ((congrArg (·.push e) h.errors).trans cleared'.symm)

end State.Resembles

namespace Eval

/-- Two evaluations end the same way in matching states, and are done with everything if they
    succeed. -/
structure Meet (ended : Except Interrupt α × Machine σ) (ended' : Except Interrupt α × Machine τ) : Prop where
  result : ended.1 = ended'.1
  matching : ended.2.state.Matches ended'.2.state
  idle (a : α) : ended.1 = .ok a → ended.2.state.Idle ∧ ended'.2.state.Idle

/-- Runs that end so leave states that resemble each other. -/
theorem Meet.settle {ended : Except Interrupt Value × Machine σ} {ended' : Except Interrupt Value × Machine τ}
    (h : Meet ended ended') : (Eval.settle ended.1 ended.2.state).Resembles (Eval.settle ended'.1 ended'.2.state) := by
  have matching := h.matching
  rw [← h.result]
  match ended.1 with
  | .error (.error e) => exact .recover matching e
  | .ok _ | .error .halted | .error .outOfFuel | .error .endlessComparison | .error .endlessText => exact matching.resembles

/-- All frames of matching states are near. -/
def seam {s t : State} (idle : s.Idle) (idle' : t.Idle) (settings : Settings)
    (unlimited : settings.maxSteps = none) : Footing where
  settings := settings
  left := s
  right := t
  near _ := True
  counts := False
  halts := False
  limited limits := limits unlimited
  outermost := trivial
  fresh _ _ := trivial
  inside := trivial
  top := by rw [State.top, State.top, idle.1, idle'.1]
  held r _ _ := by rw [idle.1, idle'.1]
  depth := by rw [idle.2, idle'.2]

/-- An observer that goes on does so where all frames are near. -/
theorem seam_guarded {s t : State} {idle : s.Idle} {idle' : t.Idle} {settings : Settings}
    {unlimited : settings.maxSteps = none} {o : Observer σ} (proceeds : o.Proceeds) :
    (seam idle idle' settings unlimited).Guarded o := fun w e u => by
  rw [proceeds w e u]
  trivial

/-- What does the same from the same states does so from matching ones in which nothing is
    evaluated. -/
theorem meet {x : Eval σ α} {y : Eval τ α} {m : Machine σ} {m' : Machine τ} {settings : Settings}
    (h : m.state.Matches m'.state) (idle : m.state.Idle) (idle' : m'.state.Idle) (unlimited : settings.maxSteps = none)
    (follows : Follows (seam idle idle' settings unlimited) x y) : Meet (runOn x m) (runOn y m') := by
  have start : (seam idle idle' settings unlimited).At [] [] m.state m'.state :=
    ⟨⟨h.memory, h.output, nofun, by rw [h.frames], by rw [h.detached], Nat.le_refl _, fun r _ => h.frame r,
        fun _ _ _ _ => trivial, fun _ far => absurd trivial far, rfl, rfl⟩,
      nofun, rfl, rfl, rfl, rfl⟩
  have ended := follows [] [] m m' start
  generalize runOn x m = outcome at ended ⊢
  generalize runOn y m' = outcome' at ended ⊢
  cases ended with
  | ok h' =>
    exact ⟨rfl, .of_agree (fun _ => trivial) h h'.toAgree,
      fun _ _ => ⟨⟨h'.stack.trans idle.1, h'.calls.trans idle.2⟩, ⟨h'.stack'.trans idle'.1, h'.calls'.trans idle'.2⟩⟩⟩
  | error h' own => exact ⟨rfl, .of_agree (fun _ => trivial) h h', nofun⟩
  | halted may => exact may.elim

/-! ## Programs in two pieces -/

section pieces
variable {ctx : Context σ}

/-- Where nothing limits the steps and the observer goes on, a node can be entered. -/
theorem runOn_enter_freely (unlimited : ctx.settings.maxSteps = none) (proceeds : ctx.observer.Proceeds) (n : NodeSummary)
    (s : State) (w : σ) :
    runOn (enter ctx n) ⟨s, w⟩ = (.ok (), ⟨s.entering n, (ctx.observer.onStep w (.enter n) (s.entering n)).1⟩) := by
  rw [Traces.runOn_entering n fun _ limited => nomatch unlimited.symm.trans limited]
  have goes := proceeds w (.enter n) (s.entering n)
  generalize ctx.observer.onStep w (.enter n) (s.entering n) = answer at goes ⊢
  obtain ⟨w', action⟩ := answer
  cases goes
  rfl

theorem runOn_exit_freely (proceeds : ctx.observer.Proceeds) (n : NodeSummary) (s : State) (w : σ) :
    runOn (exit ctx n) ⟨s, w⟩ = (.ok (), ⟨s.leaving n, (ctx.observer.onStep w (.exit n) (s.leaving n)).1⟩) := by
  rw [Traces.runOn_leaving]
  have goes := proceeds w (.exit n) (s.leaving n)
  generalize ctx.observer.onStep w (.exit n) (s.leaving n) = answer at goes ⊢
  obtain ⟨w', action⟩ := answer
  cases goes
  rfl

/-- What a program does once it has been entered. -/
def finish (ctx : Context σ) (inner : Visitor σ) (p : Program) (n : NodeSummary) : Eval σ Value := do
  let v ← inside ctx inner p
  exit ctx n
  pure v

theorem runOn_program (unlimited : ctx.settings.maxSteps = none) (proceeds : ctx.observer.Proceeds) (inner : Visitor σ)
    (p : Program) (s : State) (w : σ) :
    runOn (program ctx inner p) ⟨s, w⟩ = runOn (finish ctx inner p p.summary)
      ⟨s.entering p.summary, (ctx.observer.onStep w (.enter p.summary) (s.entering p.summary)).1⟩ := by
  rw [program_eq, runOn_bind, runOn_enter_freely unlimited proceeds]
  rfl

/-- Statements go on with others where they complete normally. -/
theorem statements_append (inner : Visitor σ) (last : Value) (body more : List Node) :
    inner.statements last (body ++ more) = (do
      match ← inner.statements last body with
      | .normal v => inner.statements v more
      | other => pure other) := by
  induction body generalizing last with
  | nil => rfl
  | cons n rest ih =>
    simp only [List.cons_append, Visitor.statements, bind_assoc]
    congr 1
    funext c
    cases c with
    | normal v => exact ih v
    | jump j span => rfl
    | returned v => rfl

/-- A program whose first statements complete normally goes on as the others do by themselves. -/
theorem runOn_finish_append (entry : ctx.settings.entryPoint = none) {inner : Visitor σ} {m m' : Machine σ} {last : Value}
    {body : List Node} (first : runOn (inner.statements .void body) m = (.ok (.normal last), m')) {p : Program}
    (nonempty : p.body ≠ []) (loc : Option Span) (n : NodeSummary) :
    runOn (finish ctx inner ⟨body ++ p.body, loc⟩ n) m = runOn (finish ctx inner p n) m' := by
  have none (p : Program) : p.entryCall? ctx.settings = .none := by
    rw [Program.entryCall?, entry]
    rfl
  have started : inner.statements last p.body = inner.statements .void p.body := by
    cases body : p.body with
    | nil => exact absurd body nonempty
    | cons n rest => rfl
  unfold finish inside
  rw [none, none, statements_append]
  simp only [bind_assoc]
  rw [runOn_bind, first]
  dsimp only
  rw [started]

end pieces
end Eval

namespace Task

/-- How the statements of a task complete that is run from a state. -/
def completion (t : Task) (s : State) : Except Interrupt Completion :=
  (Eval.runOn (do
    Eval.enter ⟨t.settings, t.observer⟩ t.program.summary
    (Eval.visitor ⟨t.settings, t.observer⟩ t.fuel).statements .void t.program.body) ⟨s.beginEvaluation, t.watch⟩).1

/-- Each of the statements completes normally. -/
def Completes (t : Task) (s : State) : Prop := ∃ last, t.completion s = .ok (.normal last)

instance (t : Task) (s : State) : Decidable (t.Completes s) :=
  match h : t.completion s with
  | .ok (.normal last) => isTrue ⟨last, h⟩
  | .ok (.jump ..) => isFalse fun ⟨_, normal⟩ => nomatch h.symm.trans normal
  | .ok (.returned _) => isFalse fun ⟨_, normal⟩ => nomatch h.symm.trans normal
  | .error _ => isFalse fun ⟨_, normal⟩ => nomatch h.symm.trans normal

/-- The same task with another program, and another memory of its observer. -/
def withProgram (t : Task) (program : Program) (watch : t.memory) : Task := { t with program, watch }

/-- A task leaves what its program leaves. -/
theorem run_settled (t : Task) (s : State) {ended : Except Interrupt Value × Machine t.memory}
    (ran : Eval.runOn (Eval.program ⟨t.settings, t.observer⟩ (Eval.visitor ⟨t.settings, t.observer⟩ t.fuel) t.program)
      ⟨s.beginEvaluation, t.watch⟩ = ended) :
    t.result s = ended.1 ∧ (t.run s).2 = Eval.settle ended.1 ended.2.state := by
  rw [t.run_state s, result, Eval.execute_eq]
  dsimp only
  rw [ran]
  exact ⟨rfl, rfl⟩

/-- The value of the last statement is plain under the strict strategy. -/
theorem plain_last {t : Task} (strict : t.settings.strategy = .strict) {s : State} {past : Log}
    (proper : s.Proper (fun _ => true) past) (empty : s.memory.thunks.size = 0) {last : Value} {w : t.memory}
    {m : Machine t.memory}
    (ran : Eval.runOn ((Eval.visitor ⟨t.settings, t.observer⟩ t.fuel).statements .void t.program.body) ⟨s, w⟩ =
      (.ok (.normal last), m)) : last.Plain ∧ m.state.stack = s.stack ∧ m.state.calls = s.calls := by
  have V : Eval.TracesVisits (fun _ => true) ⟨t.settings, t.observer⟩ (Eval.visitor ⟨t.settings, t.observer⟩ t.fuel) :=
    Eval.Traces.visit lenient_true t.fuel
  have done := Eval.Traces.statements V .void (b := true)
    (fun n (_ : n ∈ t.program.body) => .inside (n.all_of_forall fun _ => rfl)) past ⟨s, w⟩ proper
    (Value.simple_void.settled.yields s)
  rw [ran] at done
  obtain ⟨log, passage, -, allowed⟩ := done
  obtain ⟨r, -, own⟩ := allowed.held
  have same : m.state.memory.thunks.size = s.memory.thunks.size :=
    (passage.along (State.equals_respected strict) proper).whole
  exact ⟨Value.plain_of_ne fun q lazy => Nat.not_lt_zero q.index (empty ▸ same ▸ (own q lazy).1), passage.control⟩

end Task

namespace Eval

/-- A program whose statements have completed with a plain value has that value. -/
theorem runOn_inside_plain {ctx : Context σ} {fuel : Nat} {p : Program} {m m' : Machine σ} {last : Value}
    (none : p.entryCall? ctx.settings = .none) (plain : last.Plain)
    (completed : runOn ((visitor ctx fuel).statements .void p.body) m = (.ok (.normal last), m')) :
    runOn (inside ctx (visitor ctx fuel) p) m = (.error .outOfFuel, m') ∨
      runOn (inside ctx (visitor ctx fuel) p) m = (.ok last, m') := by
  unfold inside
  rw [runOn_bind, completed, none]
  cases fuel with
  | zero => exact .inl rfl
  | succ fuel =>
    right
    cases last with
    | lazy r => cases plain
    | _ => rfl

/-- It is done when it is left, if it ends at all. -/
theorem runOn_finish_plain {ctx : Context σ} (proceeds : ctx.observer.Proceeds) {fuel : Nat} {p : Program} {n : NodeSummary}
    {m m' : Machine σ} {last : Value} (none : p.entryCall? ctx.settings = .none) (plain : last.Plain)
    (completed : runOn ((visitor ctx fuel).statements .void p.body) m = (.ok (.normal last), m'))
    (ended : (runOn (finish ctx (visitor ctx fuel) p n) m).1.isOk = true) :
    settle (runOn (finish ctx (visitor ctx fuel) p n) m).1 (runOn (finish ctx (visitor ctx fuel) p n) m).2.state =
      m'.state.leaving n := by
  unfold finish at ended ⊢
  rw [runOn_bind] at ended ⊢
  rcases runOn_inside_plain none plain completed with spent | done
  · rw [spent] at ended
    cases ended
  · rw [done]
    dsimp only
    rw [runOn_bind, runOn_exit_freely proceeds]
    rfl

end Eval

namespace Task

section pieces
variable (t : Task) (strict : t.settings.strategy = .strict) (entry : t.settings.entryPoint = none)
  (unlimited : t.settings.maxSteps = none) (proceeds : t.observer.Proceeds)

include strict entry unlimited proceeds in
/-- Where the first piece has succeeded, the one program that begins with it is as far, in a
    state that matches the one that is left. -/
theorem reaches_seam (succeeds : (t.result .seeded).isOk = true) (completes : t.Completes .seeded) (n : NodeSummary) (w : t.memory) :
    ∃ last m', Eval.runOn ((Eval.visitor ⟨t.settings, t.observer⟩ t.fuel).statements .void t.program.body)
        ⟨State.seeded.beginEvaluation.entering n, w⟩ = (.ok (.normal last), m') ∧
      (t.run .seeded).2.Matches m'.state ∧ (t.run .seeded).2.Idle ∧ m'.state.Idle := by
  obtain ⟨last, completed⟩ := completes
  obtain ⟨result, left⟩ := t.run_settled .seeded rfl
  unfold completion at completed
  rw [Eval.runOn_bind, Eval.runOn_enter_freely unlimited proceeds] at completed
  rw [Eval.runOn_program unlimited proceeds] at left result
  dsimp only at completed
  generalize (t.observer.onStep t.watch _ _).1 = w₁ at completed left result
  let s₀ := State.seeded.beginEvaluation
  have idle (n : NodeSummary) : (s₀.entering n).Idle := ⟨rfl, rfl⟩
  have L := Eval.Follows.lockstep (Eval.seam (idle t.program.summary) (idle n) t.settings unlimited)
    (Eval.seam_guarded proceeds) proceeds
  have goes : Eval.Follows (Eval.seam (idle t.program.summary) (idle n) t.settings unlimited)
      ((Eval.visitor ⟨t.settings, t.observer⟩ t.fuel).statements .void t.program.body)
      ((Eval.visitor ⟨t.settings, t.observer⟩ t.fuel).statements .void t.program.body) :=
    L.toCongruence.statements (L.visitors (rfl : t.fuel = t.fuel)) .void t.program.body
  have alike : (s₀.entering t.program.summary).Matches (s₀.entering n) := ⟨rfl, rfl, rfl, rfl, rfl⟩
  have both : Eval.Meet (Eval.runOn _ ⟨s₀.entering t.program.summary, w₁⟩) (Eval.runOn _ ⟨s₀.entering n, w⟩) :=
    Eval.meet alike (idle _) (idle n) unlimited goes
  generalize ran : Eval.runOn (Visitor.statements _ _ _) ⟨s₀.entering t.program.summary, w₁⟩ = ended at both
  generalize Eval.runOn (Visitor.statements _ _ _) ⟨s₀.entering n, w⟩ = ended' at both ⊢
  obtain ⟨completion, m⟩ := ended
  obtain ⟨completion', m'⟩ := ended'
  obtain rfl : completion = .ok (.normal last) := by rw [← completed, ran]
  obtain rfl : _ = completion' := both.result
  have none : t.program.entryCall? t.settings = .none := by
    rw [Program.entryCall?, entry]
    rfl
  have plain := (plain_last strict ((State.proper_seeded _).beginEvaluation.entering _) rfl ran).1
  rw [result] at succeeds
  rw [left, Eval.runOn_finish_plain proceeds none plain ran succeeds]
  obtain ⟨idle, idle'⟩ := both.idle _ rfl
  have exited : (m.state.leaving t.program.summary).Matches m.state := ⟨rfl, rfl, rfl, rfl, rfl⟩
  exact ⟨last, m', rfl, exited.trans both.matching, idle, idle'⟩

include strict entry unlimited proceeds in
/-- Under the strict strategy, without an entry point, without a limit of steps, and under an
    observer that goes on, a session agrees with a single program. Where a program succeeds
    in a fresh session with all its statements completing normally, the run of a further
    one that is not empty has the same result there as the run of both in one piece has by
    itself; and the output, the errors, the global frame, the memory and the number of
    frames are the same. -/
theorem pieces_agree (succeeds : (t.result .seeded).isOk = true) (completes : t.Completes .seeded) (p : Program)
    (nonempty : p.body ≠ []) (loc : Option Span) (w w' : t.memory) :
    (t.withProgram p w).result (t.run .seeded).2 =
      (t.withProgram ⟨t.program.body ++ p.body, loc⟩ w').result .seeded ∧
    ((t.withProgram p w).run (t.run .seeded).2).2.Resembles
      ((t.withProgram ⟨t.program.body ++ p.body, loc⟩ w').run .seeded).2 := by
  let whole : Program := ⟨t.program.body ++ p.body, loc⟩
  obtain ⟨result, left⟩ := (t.withProgram p w).run_settled (t.run .seeded).2 rfl
  obtain ⟨result', left'⟩ := (t.withProgram whole w').run_settled .seeded rfl
  dsimp only [withProgram] at result result' left left' ⊢
  rw [Eval.runOn_program unlimited proceeds] at result result' left left'
  generalize (t.observer.onStep w (.enter p.summary) _).1 = w₁ at result left
  generalize (t.observer.onStep w' (.enter whole.summary) _).1 = w₁' at result' left'
  obtain ⟨last, m', first, matching, idle, idle'⟩ :=
    t.reaches_seam strict entry unlimited proceeds succeeds completes whole.summary w₁'
  rw [Eval.runOn_finish_append entry first nonempty] at result' left'
  have begun : ((t.run .seeded).2.beginEvaluation.entering p.summary).Matches m'.state :=
    have entered : ((t.run .seeded).2.beginEvaluation.entering p.summary).Matches (t.run .seeded).2.beginEvaluation :=
      ⟨rfl, rfl, rfl, rfl, rfl⟩
    (entered.trans (.beginEvaluation idle)).trans matching
  let F := Eval.seam (s := (t.run .seeded).2.beginEvaluation.entering p.summary) ⟨rfl, rfl⟩ idle' t.settings unlimited
  have guards : F.Guarded t.observer := Eval.seam_guarded proceeds
  have follows : Eval.Follows F
      (Eval.finish ⟨t.settings, t.observer⟩ (Eval.visitor ⟨t.settings, t.observer⟩ t.fuel) p p.summary)
      (Eval.finish ⟨t.settings, t.observer⟩ (Eval.visitor ⟨t.settings, t.observer⟩ t.fuel) p whole.summary) :=
    ((Eval.Follows.lockstep F guards proceeds).inside (rfl : t.fuel = t.fuel) p rfl).bind fun v =>
      (Eval.Begins.exit guards proceeds p.summary whole.summary).bind fun _ => .pure v
  have both := Eval.meet (m := ⟨_, w₁⟩) begun ⟨rfl, rfl⟩ idle' unlimited follows
  rw [result, result', left, left']
  exact ⟨both.result, both.settle⟩

end pieces

/-- A function that one program declares is called in the next, which fails in the end. -/
theorem call_across_pieces :
    let f := Tree.func "int" "f" [("int", "n")] [Tree.returnValue (some (Tree.bin .div (Tree.num 1.0) (Tree.ident "n")))]
    let t : Task := ⟨{ entryPoint := none }, .silent, (), 20, ⟨[Tree.var "int" "x" (some (Tree.num 2.0)), f], none⟩⟩
    let p : Program := ⟨[Tree.expr (Tree.call "f" [Tree.ident "x"]), Tree.expr (Tree.call "f" [Tree.num 0.0])], none⟩
    let whole : Program := ⟨t.program.body ++ p.body, none⟩
    (t.withProgram p ()).result (t.run .seeded).2 = (t.withProgram whole ()).result .seeded ∧
      ((t.withProgram whole ()).result .seeded).isOk = false ∧
      ((t.withProgram p ()).run (t.run .seeded).2).2.Resembles ((t.withProgram whole ()).run .seeded).2 := by
  intro f t p whole
  have succeeds : (t.result .seeded).isOk = true := by decide +kernel
  have completes : t.Completes .seeded := by decide +kernel
  obtain ⟨result, resembles⟩ := t.pieces_agree rfl rfl rfl (fun _ _ _ => rfl) succeeds completes p (by decide) none () ()
  exact ⟨result, by decide +kernel, resembles⟩

end Task
end MiniC
