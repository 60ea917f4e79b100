import MiniC.Proofs.Constructs

/-!
# Runs of programs

The run of a program gives up what an earlier one left behind and makes a passage; if it
fails, it goes back to the global frame (`Run`). This is how tasks run (`Task.run_passes`),
and so every state of a history is a proper one (`State.Proper.history`).
-/

namespace MiniC
variable {σ : Type}

/-! ## Back to the global frame -/

namespace State

theorem around_clearIfGone (s : State) (r : FrameRef) (rest : List FrameRef) (n : Nat) :
    ((s.clearIfGone r rest).frame (.numbered n)).around = (s.frame (.numbered n)).around := by
  unfold clearIfGone
  split
  · rfl
  · exact s.around_modifyBindings r (.numbered n) _

theorem frames_clearIfGone (s : State) (r : FrameRef) (rest : List FrameRef) :
    (s.clearIfGone r rest).frames.size = s.frames.size := by
  unfold clearIfGone
  split
  · rfl
  · exact s.frames_modifyBindings r _

theorem global_clearIfGone (s : State) (r : FrameRef) (rest : List FrameRef) :
    (s.clearIfGone r rest).frame .global = s.frame .global := by
  unfold clearIfGone
  split
  · rfl
  · rename_i gone
    cases r with
    | detached k => rfl
    | numbered k =>
      rw [FrameRef.global, frame_modifyBindings, if_neg]
      rintro ⟨same, -⟩
      exact gone (.inl same.symm)

/-- Frames that are given up lose their bindings and nothing else, and the global frame is
    never given up. -/
theorem clearAll_frames (s : State) (stack : List FrameRef) :
    (s.clearAll stack).frames.size = s.frames.size ∧ (s.clearAll stack).frame .global = s.frame .global ∧
    ∀ n, ((s.clearAll stack).frame (.numbered n)).around = (s.frame (.numbered n)).around := by
  induction stack generalizing s with
  | nil => exact ⟨rfl, rfl, fun _ => rfl⟩
  | cons r rest ih =>
    obtain ⟨size, outermost, around⟩ := ih (s.clearIfGone r rest)
    exact ⟨size.trans (s.frames_clearIfGone r rest), outermost.trans (s.global_clearIfGone r rest),
      fun n => (around n).trans (s.around_clearIfGone r rest n)⟩

theorem mem_of_clearAll {s : State} {stack : List FrameRef} {n : Nat} {b : String × Binding}
    (member : b ∈ ((s.clearAll stack).frame (.numbered n)).bindings) : b ∈ (s.frame (.numbered n)).bindings := by
  induction stack generalizing s with
  | nil => exact member
  | cons r rest ih => exact mem_of_clearIfGone (ih member)

theorem leads_unwind (s : State) : s.Leads s.unwind := by
  obtain ⟨size, outermost, around⟩ := s.clearAll_frames s.stack
  refine ⟨⟨Nat.le_of_eq size.symm, fun n _ => around n, fun t inside => ?_⟩, fun t _ => ?_, s.detached_clearAll s.stack,
    fun n _ member => ?_⟩
  · have same : s.unwind.memory = s.memory := s.clearAll_memory s.stack
    rw [same]
    exact ⟨inside, rfl⟩
  · have same : s.unwind.memory = s.memory := s.clearAll_memory s.stack
    rw [same]
  · have last : FrameRef.numbered n = .global := List.mem_singleton.mp member
    refine ⟨List.mem_append_right _ (List.mem_singleton.mpr last), fun name bound => ?_⟩
    have same : s.unwind.frame (.numbered n) = s.frame (.numbered n) := by
      rw [last]
      exact outermost
    rwa [get?, same]

theorem leads_beginEvaluation (s : State) : s.Leads s.beginEvaluation :=
  s.leads_unwind.trans (.still rfl rfl rfl fun _ => id)

theorem leads_recover (s : State) (e : EvalError) : s.Leads (s.recover e) := by
  have recorded : s.Leads { s with errors := s.errors.push e } := .still rfl rfl rfl fun _ => id
  exact (recorded.trans (leads_unwind _)).trans (.still rfl rfl rfl fun _ => id)

/-- Sessions start in a proper state. -/
theorem proper_seeded (law : Form → Bool) : State.seeded.Proper law [] := by
  have empty : State.Proper law [] {} := by
    refine ⟨lexical_empty, List.forall_mem_nil _, fun n b member => ?_, fun r v member => ?_, fun t v forced => ?_,
      fun t inside => absurd inside (Nat.not_lt_zero _)⟩
    · cases n with
      | zero => cases member
      | succ n =>
        rw [frame_outside (Nat.succ_le_succ (Nat.zero_le n))] at member
        cases member
    · simp [Memory.elements] at member
    · rw [Memory.thunk_of_le (Nat.zero_le _)] at forced
      cases forced
      have settled : Value.void.Settled law [] := Value.simple_void.settled
      exact ⟨settled.coded, settled.shown⟩
  have seed {s : State} (h : s.Proper law []) {v : Value} (settled : v.Settled law []) (name : String) (kind : Kind) :
      (s.bind .global name ⟨kind, v⟩).Proper law [] := h.bind (settled.plain.own s _) (h.binds settled)
  have builtin {s : State} (h : s.Proper law []) (f : Builtin) : (s.bind .global f.name ⟨f.result, .builtin f⟩).Proper law [] :=
    seed h (v := .builtin f) ⟨rfl, by rintro c ⟨⟩, by rintro r ⟨⟩⟩ f.name f.result
  exact seed (builtin (builtin (builtin empty .print) .putchar) .abs) (v := .number 0.0) (Value.simple_number _).settled _ _

end State

/-! ## Runs -/

/-- What the run of a program does to a state, after the events of a log, with what it
    announces: it comes to its end, it is cut short, or it fails and is given up. -/
inductive Run (law : Form → Bool) (settings : Settings) (past : Log) (s : State) (log : Log) : State → Prop
  | done {s' : State} (passage : Passage law settings true past s.beginEvaluation log s') : Run law settings past s log s'
  | stopped {s' : State} (broken : Broken law settings past s.beginEvaluation log s') : Run law settings past s log s'
  | failed {s' : State} (e : EvalError) (broken : Broken law settings past s.beginEvaluation log s') :
      Run law settings past s log (s'.recover e)

namespace Run
variable {law : Form → Bool} {settings : Settings} {past log : Log} {s s' : State}

theorem proper (run : Run law settings past s log s') (h : s.Proper law past) : s'.Proper law (past ++ log) := by
  cases run with
  | done passage => exact passage.proper h.beginEvaluation
  | stopped broken => exact broken.proper h.beginEvaluation
  | failed e broken => exact (broken.proper h.beginEvaluation).recover e

theorem proper_log (run : Run law settings past s log s') (h : s.Proper law past) :
    Log.Holds (fun before entry => entry.2.Proper law (before ++ [entry])) past log := by
  cases run with
  | done passage => exact passage.proper_log h.beginEvaluation
  | stopped broken | failed e broken => exact broken.proper_log h.beginEvaluation

theorem proper_of_mem (run : Run law settings past s log s') (h : s.Proper law past) :
    ∀ entry ∈ log, ∃ before, entry.2.Proper law before := fun _ member =>
  have ⟨_, proper⟩ := (run.proper_log h).of_mem member
  ⟨_, proper⟩

/-- A run goes along a relation that everything respects that passages do, if beginning and
    recovering respect it as well. -/
theorem along (run : Run law settings past s log s') (h : s.Proper law past) {R : State → State → Prop}
    (respected : Respected law settings R) (begins : ∀ s : State, R s s.beginEvaluation)
    (recovers : ∀ (s : State) e, R s (s.recover e)) : Log.Along R s log s' := by
  cases run with
  | done passage => exact (passage.along respected h.beginEvaluation).around respected.trans (begins s) (respected.refl _)
  | stopped broken => exact (broken.along respected h.beginEvaluation).around respected.trans (begins s) (respected.refl _)
  | @failed s₁ e broken =>
    exact (broken.along respected h.beginEvaluation).around respected.trans (begins s) (recovers s₁ e)

end Run

/-- A program of permitted forms runs so, and its observer is shown what is announced. -/
theorem Eval.execute_runs {law : Form → Bool} (lenient : Lenient law) (ctx : Context σ) (fuel : Nat) {p : Program}
    (code : ∀ n ∈ p.body, n.all law = true) {past : Log} {m : Machine σ} (proper : m.state.Proper law past) :
    ∃ log, Run law ctx.settings past m.state log (execute ctx fuel p m).2.state ∧
      (execute ctx fuel p m).2.watch = ctx.observer.shown m.watch log := by
  have done := Traces.program lenient ctx code fuel past { m with state := m.state.beginEvaluation } proper.beginEvaluation trivial
  unfold execute
  generalize runOn (program ctx (visitor ctx fuel) p) { m with state := m.state.beginEvaluation } = ended at done ⊢
  rcases ended with ⟨⟨i⟩ | ⟨v⟩, m'⟩
  · obtain ⟨log, broken, watched⟩ := done
    refine ⟨log, ?_, ?_⟩
    · cases i with
      | error e => exact .failed e broken
      | _ => exact .stopped broken
    · cases i with
      | error e => exact watched
      | _ => exact watched
  · obtain ⟨log, passage, watched, -⟩ := done
    exact ⟨log, .done passage, watched⟩

/-- A task runs so. -/
theorem Task.run_passes {law : Form → Bool} (lenient : Lenient law) (t : Task)
    (code : ∀ n ∈ t.program.body, n.all law = true) {past : Log} {s : State} (proper : s.Proper law past) :
    ∃ log, Run law t.settings past s log (t.run s).2 ∧ (t.run s).1 = log.map (·.2) := by
  obtain ⟨log, run, watched⟩ := Eval.execute_runs lenient ⟨t.settings, t.observer.keeping⟩ t.fuel code
    (m := ⟨s, (t.watch, [])⟩) proper
  refine ⟨log, run, ?_⟩
  unfold Task.run
  dsimp only
  rw [watched, Observer.shown_keeping]
  simp

/-! ## Histories -/

namespace State
variable {law : Form → Bool} {s : State} {past : Log}

/-- Tasks with programs of permitted forms. -/
def Permitted (law : Form → Bool) (tasks : List Task) : Prop := ∀ t ∈ tasks, ∀ n ∈ t.program.body, n.all law = true

/-- Every state of a history is proper after some events. -/
theorem Proper.history (h : s.Proper law past) (lenient : Lenient law) {tasks : List Task} (code : Permitted law tasks) :
    ∀ s' ∈ s.history tasks, ∃ before, s'.Proper law before := by
  induction tasks generalizing s past with
  | nil => exact List.forall_mem_singleton.mpr ⟨past, h⟩
  | cons t rest ih =>
    obtain ⟨code, others⟩ := List.forall_mem_cons.mp code
    obtain ⟨log, run, shown⟩ := t.run_passes lenient code h
    refine List.forall_mem_cons.mpr ⟨⟨past, h⟩, List.forall_mem_append.mpr ⟨?_, ih (run.proper h) others⟩⟩
    rw [shown, List.forall_mem_map]
    exact run.proper_of_mem h

/-- A history goes along a relation along which each task runs from the states in which it may
    find itself. -/
theorem history_along {I : State → Prop} {R : State → State → Prop} (refl : ∀ s, R s s)
    (trans : ∀ {s s' s'' : State}, R s s' → R s' s'' → R s s'') {tasks : List Task} (start : I s)
    (step : ∀ t ∈ tasks, ∀ s, I s → I (t.run s).2 ∧ ∃ log, (t.run s).1 = log.map (·.2) ∧ Log.Along R s log (t.run s).2) :
    (∀ s' ∈ s.history tasks, R s s') ∧ (s.history tasks).Pairwise R := by
  induction tasks generalizing s with
  | nil => exact ⟨List.forall_mem_singleton.mpr (refl s), List.pairwise_singleton _ _⟩
  | cons t rest ih =>
    obtain ⟨first, others⟩ := List.forall_mem_cons.mp step
    obtain ⟨next, log, shown, along⟩ := first s start
    obtain ⟨onward, pairs⟩ := ih next others
    have onwards : ∀ s' ∈ (t.run s).1 ++ (t.run s).2.history rest, R s s' := by
      refine List.forall_mem_append.mpr ⟨?_, fun s' member => trans along.whole (onward s' member)⟩
      rw [shown, List.forall_mem_map]
      exact along.onward
    refine ⟨List.forall_mem_cons.mpr ⟨refl s, onwards⟩,
      List.pairwise_cons.mpr ⟨onwards, List.pairwise_append.mpr ⟨?_, pairs, ?_⟩⟩⟩
    · rw [shown]
      exact List.pairwise_map.mpr along.pairs
    · rw [shown, List.forall_mem_map]
      exact fun entry member s' later => trans (along.back entry member) (onward s' later)

/-- A history goes along a relation that everything respects that runs do. -/
theorem Proper.history_along (h : s.Proper law past) (lenient : Lenient law) {tasks : List Task} (code : Permitted law tasks)
    {R : State → State → Prop} (respected : ∀ t ∈ tasks, Respected law t.settings R) (refl : R s s)
    (trans : ∀ {s s' s'' : State}, R s s' → R s' s'' → R s s'') (begins : ∀ s : State, R s s.beginEvaluation)
    (recovers : ∀ (s : State) e, R s (s.recover e)) :
    (∀ s' ∈ s.history tasks, R s s') ∧ (s.history tasks).Pairwise R := by
  cases tasks with
  | nil => exact ⟨List.forall_mem_singleton.mpr refl, List.pairwise_singleton _ _⟩
  | cons t rest =>
    have always := (respected t List.mem_cons_self).refl
    refine State.history_along (I := fun s => ∃ past, s.Proper law past) always trans ⟨past, h⟩ fun t member s ⟨past, proper⟩ => ?_
    obtain ⟨log, run, shown⟩ := t.run_passes lenient (code t member) proper
    exact ⟨⟨_, run.proper proper⟩, log, shown, run.along proper (respected t member) begins recovers⟩

end State

/-- The states at which a run can be suspended, in the order in which an observer that
    never halts sees them. -/
def Program.suspensions (p : Program) (settings : Settings) (fuel : Nat) : List State :=
  (Eval.execute ⟨settings, .recording fun _ s => s⟩ fuel p ⟨.seeded, []⟩).2.watch.reverse

/-- A run by itself starts where sessions start. -/
theorem Program.suspensions_pass {law : Form → Bool} (lenient : Lenient law) {p : Program}
    (code : ∀ n ∈ p.body, n.all law = true) (settings : Settings) (fuel : Nat) :
    ∃ log s', Run law settings [] .seeded log s' ∧ p.suspensions settings fuel = log.map (·.2) := by
  obtain ⟨log, run, watched⟩ := Eval.execute_runs lenient ⟨settings, .recording fun _ s => s⟩ fuel code
    (m := ⟨.seeded, []⟩) (State.proper_seeded law)
  refine ⟨log, _, run, ?_⟩
  unfold suspensions
  rw [watched, Observer.shown_recording]
  simp

/-- Everything may be permitted. -/
theorem lenient_true : Lenient fun _ => true := ⟨fun _ _ => rfl, fun _ _ => rfl, fun _ _ => rfl, fun _ => rfl⟩

/-- Runs are suspended in lexical states. -/
theorem Program.lexical_of_mem_suspensions {p : Program} {settings : Settings} {fuel : Nat} {s : State}
    (suspended : s ∈ p.suspensions settings fuel) : s.Lexical := by
  obtain ⟨log, s', run, same⟩ := p.suspensions_pass lenient_true (fun n _ => n.all_of_forall fun _ => rfl) settings fuel
  rw [same] at suspended
  obtain ⟨entry, member, rfl⟩ := List.mem_map.mp suspended
  obtain ⟨before, proper⟩ := run.proper_of_mem (State.proper_seeded _) entry member
  exact proper.lexical

end MiniC
