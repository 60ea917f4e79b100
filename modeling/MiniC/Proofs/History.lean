import MiniC.Proofs.Replay

/-!
# Histories

Programs are run one after the other on one state, each under settings and an observer
of its own. What anyone can see of the state is its history: how it was between the runs
and at every suspension point in them.
-/

namespace MiniC
variable {σ τ α β : Type}

/-! ## What observers are shown -/

namespace Observer

/-- What an observer remembers when a log has been shown to it. -/
def shown (o : Observer σ) (w : σ) (log : Log) : σ := log.foldl (fun w entry => (o.onStep w entry.1 entry.2).1) w

/-- The observer that decides as another one does and keeps the states that it is shown,
    the last one first. -/
def keeping (o : Observer σ) : Observer (σ × List State) :=
  ⟨fun w e s => let (next, action) := o.onStep w.1 e s; ((next, s :: w.2), action)⟩

variable (o : Observer σ)

@[simp] theorem shown_single (w : σ) (e : Event) (s : State) : o.shown w [(e, s)] = (o.onStep w e s).1 := rfl

theorem shown_append (w : σ) (log more : Log) : o.shown w (log ++ more) = o.shown (o.shown w log) more := by
  simp [shown, List.foldl_append]

theorem keeping_onStep (w : σ × List State) (e : Event) (s : State) :
    o.keeping.onStep w e s = (((o.onStep w.1 e s).1, s :: w.2), (o.onStep w.1 e s).2) := rfl

/-- All states of a log are kept. -/
theorem shown_keeping (w : σ) (seen : List State) (log : Log) :
    o.keeping.shown (w, seen) log = (o.shown w log, (log.map (·.2)).reverse ++ seen) := by
  induction log generalizing w seen with
  | nil => rfl
  | cons entry rest ih =>
    show o.keeping.shown ((o.onStep w entry.1 entry.2).1, entry.2 :: seen) rest = _
    rw [ih]
    simp [shown]

/-- A recorder records all of a log. -/
theorem shown_recording (view : Event → State → α) (seen : List α) (log : Log) :
    (recording view).shown seen log = (log.map fun entry => view entry.1 entry.2).reverse ++ seen := by
  induction log generalizing seen with
  | nil => rfl
  | cons entry rest ih =>
    show (recording view).shown (view entry.1 entry.2 :: seen) rest = _
    rw [ih]
    simp

end Observer

/-! ## Tasks -/

/-- A program that is to be run, under settings and an observer of its own. -/
structure Task where
  {memory : Type}
  settings : Settings
  observer : Observer memory
  watch : memory
  fuel : Nat
  program : Program

/-- How a task is run from a state: the states that its observer is shown, in order, and
    the state that is left. -/
def Task.run (t : Task) (s : State) : List State × State :=
  let m := (Eval.execute ⟨t.settings, t.observer.keeping⟩ t.fuel t.program ⟨s, (t.watch, [])⟩).2
  (m.watch.2.reverse, m.state)

namespace State

/-- The state that tasks leave, run one after the other. -/
def after (s : State) (tasks : List Task) : State := tasks.foldl (fun s t => (t.run s).2) s

/-- All states that can be seen while tasks are run one after the other. -/
def history (s : State) : List Task → List State
  | [] => [s]
  | t :: rest => s :: ((t.run s).1 ++ history (t.run s).2 rest)

/-- A history begins with the state in which the first task finds it. -/
theorem history_eq_cons (s : State) (tasks : List Task) : ∃ rest, s.history tasks = s :: rest := by
  cases tasks with
  | nil => exact ⟨[], rfl⟩
  | cons t rest => exact ⟨_, rfl⟩

end State

/-! ## More memory is harmless -/

/-- An observer that decides as another one does and remembers more than that, so that
    something stays true of it. -/
def Observer.Carries (I : σ → τ → State → Prop) (o : Observer σ) (o' : Observer (σ × τ)) : Prop :=
  ∀ w seen e s, I w seen s → ∃ seen', o'.onStep (w, seen) e s = (((o.onStep w e s).1, seen'), (o.onStep w e s).2) ∧
    I (o.onStep w e s).1 seen' s

/-- An observer that decides as another one does and remembers more than that. -/
def Observer.Widens (o : Observer σ) (o' : Observer (σ × τ)) : Prop := o.Carries (fun _ _ _ => True) o'

theorem Observer.widens_keeping (o : Observer σ) : o.Widens o.keeping := fun _ _ _ _ _ => ⟨_, rfl, trivial⟩

namespace Eval

/-- From a state, the second evaluation is the first one with more memory, for the states that
    were shown or for anything else, and something stays true of it. -/
def CarriesAt (I : σ → τ → State → Prop) (s : State) (x : Eval σ α) (y : Eval (σ × τ) α) : Prop :=
  ∀ w seen, I w seen s → ∃ seen', runOn y ⟨s, (w, seen)⟩ =
    ((runOn x ⟨s, w⟩).1, ⟨(runOn x ⟨s, w⟩).2.state, ((runOn x ⟨s, w⟩).2.watch, seen')⟩) ∧
      I (runOn x ⟨s, w⟩).2.watch seen' (runOn x ⟨s, w⟩).2.state

@[inherit_doc CarriesAt]
def Carries (I : σ → τ → State → Prop) (x : Eval σ α) (y : Eval (σ × τ) α) : Prop := ∀ s, CarriesAt I s x y

/-- The second evaluation is the first one with more memory. -/
def Keeping (x : Eval σ α) (y : Eval (σ × τ) α) : Prop := Carries (fun _ _ _ => True) x y

/-- What stays true whatever is evaluated, unless elements of arrays are stored. -/
structure Undisturbed (I : σ → τ → State → Prop) : Prop where
  still {w : σ} {seen : τ} {s s' : State} : I w seen s → s'.memory.arrays = s.memory.arrays → I w seen s'
  newArray {w : σ} {seen : τ} {s : State} (elements : Array Value) :
    I w seen s → I w seen { s with memory := (s.memory.newArray elements).2 }

variable {I : σ → τ → State → Prop}

/-- What follows may depend on how the first part has ended. -/
theorem CarriesAt.bind {s : State} {x : Eval σ α} {y : Eval (σ × τ) α} {f : α → Eval σ β} {g : α → Eval (σ × τ) β}
    (first : CarriesAt I s x y)
    (second : ∀ w a m, runOn x ⟨s, w⟩ = (.ok a, m) → CarriesAt I m.state (f a) (g a)) :
    CarriesAt I s (x >>= f) (y >>= g) := by
  intro w seen holds
  obtain ⟨seen', same, holds⟩ := first w seen holds
  rw [runOn_bind, runOn_bind, same]
  rcases outcome : runOn x ⟨s, w⟩ with ⟨result, m⟩
  rw [outcome] at holds
  cases result with
  | error i => exact ⟨seen', rfl, holds⟩
  | ok a => exact second w a m outcome m.watch seen' holds

namespace Carries

/-- An evaluation that announces nothing, and does the same on both sides. -/
theorem quiet {x : Eval σ α} {y : Eval (σ × τ) α}
    (h : ∀ s : State, ∃ (result : Except Interrupt α) (s' : State),
      (∀ w, runOn x ⟨s, w⟩ = (result, ⟨s', w⟩)) ∧ (∀ w, runOn y ⟨s, w⟩ = (result, ⟨s', w⟩)) ∧
        ∀ w seen, I w seen s → I w seen s') : Carries I x y := by
  intro s w seen holds
  obtain ⟨result, s', onX, onY, keeps⟩ := h s
  refine ⟨seen, by rw [onX, onY], ?_⟩
  rw [onX]
  exact keeps w seen holds

theorem pure (a : α) : Carries I (pure a) (pure a) := quiet fun s => ⟨.ok a, s, fun _ => rfl, fun _ => rfl, fun _ _ => id⟩

theorem stop (i : Interrupt) : Carries (α := α) I (throw i) (throw i) :=
  quiet fun s => ⟨.error i, s, fun _ => rfl, fun _ => rfl, fun _ _ => id⟩

theorem state : Carries I Eval.state Eval.state := quiet fun s => ⟨.ok s, s, fun _ => rfl, fun _ => rfl, fun _ _ => id⟩

theorem modifyGet {f : State → α × State} (keeps : ∀ s w seen, I w seen s → I w seen (f s).2) :
    Carries I (Eval.modifyGet f) (Eval.modifyGet f) :=
  quiet fun s => ⟨.ok (f s).1, (f s).2, fun _ => rfl, fun _ => rfl, keeps s⟩

theorem modify {f : State → State} (keeps : ∀ s w seen, I w seen s → I w seen (f s)) :
    Carries I (Eval.modify f) (Eval.modify f) :=
  quiet fun s => ⟨.ok (), f s, fun _ => rfl, fun _ => rfl, keeps s⟩

theorem bind {x : Eval σ α} {y : Eval (σ × τ) α} {f : α → Eval σ β} {g : α → Eval (σ × τ) β}
    (first : Carries I x y) (second : ∀ a, Carries I (f a) (g a)) : Carries I (x >>= f) (y >>= g) :=
  fun s => (first s).bind fun _ a m _ => second a m.state

section calm
variable (calm : Undisturbed I)
include calm

theorem attempt (fault? : State → Option EvalError) {change : State → State}
    (arrays : ∀ s, (change s).memory.arrays = s.memory.arrays) :
    Carries I (Eval.attempt fault? change) (Eval.attempt fault? change) := by
  refine quiet fun s => ?_
  simp only [runOn_attempt]
  cases fault? s with
  | some e => exact ⟨_, s, fun _ => rfl, fun _ => rfl, fun _ _ => id⟩
  | none => exact ⟨_, change s, fun _ => rfl, fun _ => rfl, fun _ _ holds => calm.still holds (arrays s)⟩

theorem inFrame {x : Eval σ α} {y : Eval (σ × τ) α} (tag : FrameTag) (h : Carries I x y) :
    Carries I (Eval.inFrame tag x) (Eval.inFrame tag y) :=
  bind (modifyGet fun _ _ _ holds => calm.still holds rfl) fun _ => bind h fun a =>
    bind (attempt calm _ fun s => by rw [s.dropTop_memory]) fun _ => pure a

theorem leaveCall (name : String) (n : Nat) : Carries I (Eval.leaveCall name n) (Eval.leaveCall name n) := by
  refine quiet fun s => ?_
  obtain ⟨result, s', same, left⟩ := exists_runOn_leaveCall name n s
  refine ⟨_, s', same, same, fun _ _ holds => calm.still holds ?_⟩
  obtain rfl | rfl | rfl := left
  · rfl
  · rw [s.dropTop_memory]
  · exact congrArg Memory.arrays s.dropTop_memory

theorem inCall {x : Eval σ α} {y : Eval (σ × τ) α} (name : String) (h : Carries I x y) :
    Carries I (Eval.inCall name x) (Eval.inCall name y) :=
  bind (modifyGet fun _ _ _ holds => calm.still holds rfl) fun n => bind h fun a => bind (leaveCall calm name n) fun _ => pure a

theorem compute {x : Node → Eval σ Value} {y : Node → Eval (σ × τ) Value} (r : ThunkRef)
    (h : ∀ n, Carries I (x n) (y n)) : Carries I (Eval.compute r x) (Eval.compute r y) := by
  intro s w seen holds
  simp only [runOn_compute]
  cases (s.memory.thunk r).phase with
  | forced v => exact ⟨seen, rfl, holds⟩
  | forcing => exact ⟨seen, rfl, holds⟩
  | pending =>
    obtain ⟨seen', same, holds⟩ := h (s.memory.thunk r).expression
      ((s.setPhase r .forcing).reenter (s.memory.thunk r).home) w seen (calm.still holds rfl)
    dsimp only
    rw [same]
    generalize runOn (x (s.memory.thunk r).expression) _ = outcome at holds ⊢
    obtain ⟨⟨i⟩ | ⟨v⟩, m⟩ := outcome
    · exact ⟨seen', rfl, calm.still holds rfl⟩
    · dsimp only
      cases m.state.popFault? (s.memory.thunk r).home.number with
      | some e => exact ⟨seen', rfl, calm.still holds rfl⟩
      | none =>
        have arrays : m.state.dropTop.memory.arrays = m.state.memory.arrays := by rw [m.state.dropTop_memory]
        exact ⟨seen', rfl, calm.still holds arrays⟩

omit calm in
theorem checkDepth (limit : Nat) (span : Option Span) : Carries I (Eval.checkDepth limit span) (Eval.checkDepth limit span) :=
  bind state fun _ => by
    split
    · exact stop _
    · exact pure ()

section events
variable {ctx : Context σ} {o : Observer (σ × τ)} (widens : ctx.observer.Carries I o)
include widens

theorem suspend (e : Event) : Carries I (Eval.suspend ctx e) (Eval.suspend ⟨ctx.settings, o⟩ e) := by
  intro s w seen holds
  obtain ⟨seen', same, holds⟩ := widens w seen e { s with lastEvent := some e } (calm.still holds rfl)
  rw [runOn_suspend, runOn_suspend]
  dsimp only
  rw [same]
  generalize ctx.observer.onStep w e { s with lastEvent := some e } = answer at holds ⊢
  obtain ⟨next, action⟩ := answer
  cases action with
  | proceed => exact ⟨_, rfl, holds⟩
  | halt => exact ⟨_, rfl, holds⟩

theorem enter (n : NodeSummary) : Carries I (Eval.enter ctx n) (Eval.enter ⟨ctx.settings, o⟩ n) :=
  bind (modify fun _ _ _ holds => calm.still holds rfl) fun _ => by
    dsimp only
    split
    · refine bind state fun _ => ?_
      split
      · exact bind (stop _) fun _ => suspend calm widens _
      · exact suspend calm widens _
    · exact suspend calm widens _

theorem exit (n : NodeSummary) : Carries I (Eval.exit ctx n) (Eval.exit ⟨ctx.settings, o⟩ n) :=
  bind (modify fun _ _ _ holds => calm.still holds rfl) fun _ => suspend calm widens _

theorem bracket {x : Eval σ α} {y : Eval (σ × τ) α} (n : NodeSummary) (h : Carries I x y) :
    Carries I (do Eval.enter ctx n; let a ← x; Eval.exit ctx n; Pure.pure a)
      (do Eval.enter ⟨ctx.settings, o⟩ n; let a ← y; Eval.exit ⟨ctx.settings, o⟩ n; Pure.pure a) :=
  bind (enter calm widens n) fun _ => bind h fun a => bind (exit calm widens n) fun _ => pure a

/-- More memory passes through every construct, or at least through those that store no element. -/
theorem lockstep {elements : Prop} (stored : elements → ∀ s w seen (r : ArrayRef) (i : Nat) (v : Value),
    I w seen s → I w seen { s with memory := s.memory.setElement r i v }) :
    Lockstep ctx ⟨ctx.settings, o⟩ (· = ·) (Carries I) (Carries I) (fun _ => True) elements where
  strategy := rfl
  pure := pure
  bind := bind
  fail e := stop (.error e)
  stray _ _ := bind state fun _ => stop _
  read h := bind state fun s => h s s (.refl s)
  sameValues v w := bind state fun s => by
    cases s.memory.same? v w with
    | none => exact stop _
    | some same => exact pure same
  newArray elements := modifyGet fun _ _ _ => calm.newArray elements
  newClosure _ _ _ := modifyGet fun _ _ _ holds => calm.still holds rfl
  delay _ := bind state fun _ => bind (modifyGet fun _ _ _ holds => calm.still holds rfl) fun r => pure (Value.lazy r)
  setElement r i v may := modify fun s w seen => stored may s w seen r i v
  write _ := modify fun _ _ _ holds => calm.still holds rfl
  declare _ _ _ _ := attempt calm _ fun s => by rw [State.bind_memory]
  declareGlobal _ _ _ _ := attempt calm _ fun s => by rw [State.bind_memory]
  redefine _ _ _ := modify fun _ _ _ holds => calm.still holds (by rw [State.bind_memory])
  assign _ _ _ := attempt calm _ fun s => by rw [State.store_memory]
  inFrame {_ _ _ tag} _ := inFrame calm tag
  inCall name span h := bind (checkDepth _ span) fun _ => inCall calm name h
  compute := compute calm
  bracket := bracket calm widens
  after := bind
  quit := stop _
  forget := id
  fuels_zero h := .inl h.symm
  fuels_succ h := ⟨_, h.symm, rfl⟩

end events
end calm
end Carries

namespace Keeping

theorem undisturbed : Undisturbed fun (_ : σ) (_ : τ) (_ : State) => True := ⟨fun _ _ => trivial, fun _ => id⟩

/-- The outcome of the second evaluation in terms of the first. -/
theorem outcome {x : Eval σ α} {y : Eval (σ × τ) α} (h : Keeping x y) (s : State) (w : σ) (seen : τ) :
    ∃ seen', runOn y ⟨s, (w, seen)⟩ =
      ((runOn x ⟨s, w⟩).1, ⟨(runOn x ⟨s, w⟩).2.state, ((runOn x ⟨s, w⟩).2.watch, seen')⟩) := by
  obtain ⟨seen', same, -⟩ := h s w seen trivial
  exact ⟨seen', same⟩

/-- Keeping more passes through every construct. -/
theorem lockstep {ctx : Context σ} {o : Observer (σ × τ)} (widens : ctx.observer.Widens o) :
    Lockstep ctx ⟨ctx.settings, o⟩ (· = ·) Keeping Keeping :=
  Carries.lockstep undisturbed widens fun _ _ _ _ _ _ _ => id

end Keeping

/-- A program runs under the observer that keeps as it does under the one that does not. -/
theorem execute_keeping (ctx : Context σ) (fuel : Nat) (p : Program) (s : State) (w : σ) (seen : List State) :
    ∃ seen', execute ⟨ctx.settings, ctx.observer.keeping⟩ fuel p ⟨s, (w, seen)⟩ =
      ((execute ctx fuel p ⟨s, w⟩).1,
        ⟨(execute ctx fuel p ⟨s, w⟩).2.state, ((execute ctx fuel p ⟨s, w⟩).2.watch, seen')⟩) := by
  have keeping := (Keeping.lockstep ctx.observer.widens_keeping).program (rfl : fuel = fuel) p rfl
  obtain ⟨seen', same⟩ := Keeping.outcome keeping s.beginEvaluation w seen
  refine ⟨seen', ?_⟩
  unfold execute
  rw [same]
  rcases runOn (program ctx (visitor ctx fuel) p) ⟨s.beginEvaluation, w⟩ with ⟨result, m⟩
  match result with
  | .ok v => rfl
  | .error (.error e) => rfl
  | .error .halted => rfl
  | .error .outOfFuel => rfl
  | .error .endlessComparison => rfl
  | .error .endlessText => rfl

end Eval

/-- A task leaves the state that its program leaves under its observer. -/
theorem Task.run_state (t : Task) (s : State) :
    (t.run s).2 = (Eval.execute ⟨t.settings, t.observer⟩ t.fuel t.program ⟨s, t.watch⟩).2.state := by
  obtain ⟨seen, same⟩ := Eval.execute_keeping ⟨t.settings, t.observer⟩ t.fuel t.program s t.watch []
  unfold run
  rw [same]

end MiniC
