import MiniC.Proofs.Jumps
import MiniC.Proofs.Limits
import MiniC.Proofs.StepLimit

/-!
# Termination

Fuel bounds how deep visits are nested, how often loops go round and how far a thunk is
followed. None of these goes on without entering a node: an evaluation that runs out of its
fuel has announced as many entries as it had fuel (`Eval.Spends`). Since a limit of steps
bounds the entries, a run with more fuel than that ends by itself (`Task.terminates`). It need
not end with a value or an error: an array that contains itself has no text, and a message
that is to show one never comes about (`Task.self_containing_returned`).
-/

namespace MiniC
variable {σ α β : Type}

/-- What is compared is found in the arrays. -/
theorem Memory.same?_congr {m m' : Memory} (arrays : m'.arrays = m.arrays) : m'.same? = m.same? := by
  have elements : m'.elements = m.elements := by
    funext r
    rw [Memory.elements, Memory.elements, arrays]
  have within (fuel : Nat) : m'.sameWithin? fuel = m.sameWithin? fuel := by
    induction fuel with
    | zero => rfl
    | succ fuel ih =>
      funext v w
      cases v with
      | array r =>
        cases w with
        | array s =>
          simp only [Memory.sameWithin?, ih]
          unfold Memory.length
          rw [elements]
        | _ => rfl
      | _ => cases w <;> rfl
  funext v w
  unfold Memory.same?
  rw [arrays, within]

namespace Eval

/-! ## What fuel is spent on -/

/-- The entries that have been announced to an observer that keeps the states. -/
def entered (m : Machine (σ × List State)) : Nat := m.watch.2.countP fun u => u.lastEvent.any (·.isEnter)

/-- Why an evaluation ends early: it fails, it is halted by its observer, it has announced as
    many entries as it had fuel, it compares values without end, or it is at a loss to tell of
    a completion. -/
def Due (o : Observer σ) (fuel : Nat) (m m' : Machine (σ × List State)) : Interrupt → Prop
  | .error _ | .endlessText => True
  | .halted => ∃ w e u, (o.onStep w e u).2 = .halt
  | .outOfFuel => entered m + fuel ≤ entered m'
  | .endlessComparison => ∃ v w, m'.state.memory.same? v w = none

/-- An evaluation announces so many entries, or it ends early for a reason; it runs out of
    fuel only when it has announced so many as the fuel allows. -/
def Spends (o : Observer σ) (fuel entries : Nat) (x : Eval (σ × List State) α) : Prop := ∀ m,
  match runOn x m with
  | (.ok _, m') => entered m + entries ≤ entered m'
  | (.error i, m') => Due o fuel m m' i

variable {o : Observer σ} {settings : Settings}

/-- What was announced before counts too. -/
theorem Due.after {fuel spent total : Nat} {m m₁ m' : Machine (σ × List State)} {i : Interrupt}
    (h : Due o fuel m₁ m' i) (before : entered m + spent ≤ entered m₁) (enough : total ≤ fuel + spent) :
    Due o total m m' i := by
  cases i with
  | outOfFuel =>
    have : entered m₁ + fuel ≤ entered m' := h
    show entered m + total ≤ entered m'
    omega
  | _ => exact h

namespace Spends
variable {fuel entries : Nat}

theorem quiet {x : Eval (σ × List State) α} (h : ∀ m, ∃ a s, runOn x m = (.ok a, { m with state := s })) :
    Spends o fuel 0 x := by
  intro m
  obtain ⟨a, s, ran⟩ := h m
  rw [ran]
  exact Nat.le_refl (entered m)

theorem pure (a : α) : Spends o fuel 0 (pure a) := quiet fun m => ⟨a, m.state, rfl⟩

theorem state : Spends o fuel 0 Eval.state := quiet fun m => ⟨m.state, m.state, rfl⟩

theorem modifyGet (f : State → α × State) : Spends o fuel 0 (Eval.modifyGet f) := quiet fun _ => ⟨_, _, rfl⟩

theorem modify (f : State → State) : Spends o fuel 0 (Eval.modify f) := quiet fun _ => ⟨_, _, rfl⟩

theorem fail (e : EvalError) : Spends (α := α) o fuel entries (Eval.fail e) := fun _ => trivial

theorem stray (label : Label) (c : Completion) : Spends (α := α) o fuel entries (Eval.stray label c) := by
  intro m
  unfold Eval.stray
  rw [runOn_state_bind]
  rcases c.stray_cases label m.state.memory with ⟨shown, -, told⟩ | ⟨-, endless⟩
  · rw [told]
    trivial
  · rw [endless]
    trivial

theorem exhausted : Spends (α := α) o 0 entries (throw .outOfFuel) := fun m => Nat.le_refl (entered m)

theorem forget {x : Eval (σ × List State) α} (h : Spends o fuel entries x) : Spends o fuel 0 x := by
  intro m
  have run := h m
  generalize runOn x m = outcome at run ⊢
  obtain ⟨⟨i⟩ | ⟨a⟩, m'⟩ := outcome
  · exact run
  · exact Nat.le_trans (Nat.le_add_right _ _) run

/-- What comes after some entries may have so much less fuel. -/
theorem within {x : Eval (σ × List State) α} {f : α → Eval (σ × List State) β} (first : Spends o fuel entries x)
    (less : Nat) (second : ∀ a, Spends o less 0 (f a)) (enough : fuel ≤ less + entries) :
    Spends o fuel entries (x >>= f) := by
  intro m
  have begun := first m
  rw [runOn_bind]
  generalize runOn x m = outcome at begun ⊢
  obtain ⟨⟨i⟩ | ⟨a⟩, m₁⟩ := outcome
  · exact begun
  · have done := second a m₁
    dsimp only at begun ⊢
    generalize runOn (f a) m₁ = outcome at done ⊢
    obtain ⟨⟨i⟩ | ⟨b⟩, m₂⟩ := outcome
    · exact done.after begun enough
    · exact Nat.le_trans begun done

theorem bind {x : Eval (σ × List State) α} {f : α → Eval (σ × List State) β} (first : Spends o fuel entries x)
    (second : ∀ a, Spends o fuel 0 (f a)) : Spends o fuel entries (x >>= f) :=
  first.within fuel second (Nat.le_add_right _ _)

theorem mono {more : Nat} {x : Eval (σ × List State) α} (h : Spends o more entries x) (less : fuel ≤ more) :
    Spends o fuel entries x := by
  intro m
  have run := h m
  generalize runOn x m = outcome at run ⊢
  obtain ⟨⟨i⟩ | ⟨a⟩, m'⟩ := outcome
  · exact Due.after run (Nat.le_refl _ : entered m + 0 ≤ entered m) less
  · exact run

theorem attempt (fault? : State → Option EvalError) (change : State → State) :
    Spends o fuel 0 (Eval.attempt fault? change) := by
  refine state.bind fun s => ?_
  cases fault? s with
  | some e => exact fail e
  | none => exact modify change

/-- A comparison without an answer is a reason to end. -/
theorem sameValues (v w : Value) : Spends o fuel 0 (Eval.sameValues v w) := by
  intro m
  unfold Eval.sameValues
  rw [runOn_state_bind]
  cases same : m.state.memory.same? v w with
  | some answer => exact Nat.le_refl (entered m)
  | none => exact ⟨v, w, same⟩

/-! ## Events -/

theorem suspend (e : Event) :
    Spends o fuel (if e.isEnter then 1 else 0) (Eval.suspend ⟨settings, o.keeping⟩ e) := by
  intro m
  rw [show m = ⟨m.state, m.watch⟩ from rfl, runOn_suspend, Observer.keeping_onStep]
  rcases shown : o.onStep m.watch.1 e { m.state with lastEvent := some e } with ⟨w, action⟩
  cases action with
  | halt => exact ⟨_, _, _, congrArg Prod.snd shown⟩
  | proceed =>
    show entered m + _ ≤ List.countP _ (_ :: m.watch.2)
    rw [List.countP_cons]
    exact Nat.le_refl _

/-- The entry of a node is announced, or the limit of steps refuses it. -/
theorem enter (n : NodeSummary) : Spends o fuel 1 (Eval.enter ⟨settings, o.keeping⟩ n) := by
  intro m
  rw [show m = ⟨m.state, m.watch⟩ from rfl, runOn_enter]
  cases settings.maxSteps.filter (· < m.state.steps + 1) with
  | some limit => trivial
  | none => exact suspend (.enter n) ⟨m.state.enterNode n, m.watch⟩

theorem exit (n : NodeSummary) : Spends o fuel 0 (Eval.exit ⟨settings, o.keeping⟩ n) :=
  (modify _).bind fun _ => suspend (.exit n)

/-- Inside a node there is one entry less to make. -/
theorem bracket {x : Eval (σ × List State) α} (n : NodeSummary) (h : Spends o fuel 0 x) :
    Spends o (fuel + 1) 1 (do
      Eval.enter ⟨settings, o.keeping⟩ n
      let a ← x
      Eval.exit ⟨settings, o.keeping⟩ n
      Pure.pure a) :=
  (enter n).within fuel (fun _ => h.bind fun a => (exit n).bind fun _ => pure a) (Nat.le_refl _)

/-! ## Frames, calls and thunks -/

theorem inFrame {x : Eval (σ × List State) α} (tag : FrameTag) (h : Spends o fuel 0 x) :
    Spends o fuel 0 (Eval.inFrame tag x) :=
  (modifyGet _).bind fun _ => h.bind fun a => (attempt _ _).bind fun _ => pure a

theorem checkDepth (limit : Nat) (span : Option Span) : Spends o fuel 0 (Eval.checkDepth limit span) :=
  state.bind fun _ => by
    split
    · exact fail _
    · exact pure ()

theorem leaveCall (name : String) (n : Nat) : Spends o fuel 0 (Eval.leaveCall name n) := by
  intro m
  obtain ⟨result, s, left, -⟩ := exists_runOn_leaveCall name n m.state
  rw [show m = ⟨m.state, m.watch⟩ from rfl, left]
  cases result with
  | error e => trivial
  | ok _ => exact Nat.le_refl (entered m)

theorem inCall {x : Eval (σ × List State) α} (name : String) (h : Spends o fuel 0 x) :
    Spends o fuel 0 (Eval.inCall name x) :=
  (modifyGet _).bind fun n => h.bind fun a => (leaveCall name n).bind fun _ => pure a

/-- A thunk that is put back after a failure does not hide the reason for it. -/
theorem undoing {x : Eval (σ × List State) α} (r : ThunkRef) (phase : Phase) (h : Spends o fuel entries x) :
    Spends o fuel entries (Eval.undoing (·.setPhase r phase) x) := by
  intro m
  have run := h m
  rw [runOn_undoing]
  generalize runOn x m = outcome at run ⊢
  obtain ⟨⟨i⟩ | ⟨a⟩, m'⟩ := outcome
  · cases i with
    | endlessComparison =>
      obtain ⟨v, w, none⟩ := run
      have same : (m'.state.memory.setPhase r phase).same? = m'.state.memory.same? := Memory.same?_congr rfl
      exact ⟨v, w, (congrFun (congrFun same v) w).trans none⟩
    | _ => exact run
  · exact run

theorem compute {x : Node → Eval (σ × List State) Value} (r : ThunkRef) (h : ∀ n, Spends o fuel 0 (x n)) :
    Spends o fuel 0 (Eval.compute r x) := by
  refine state.bind fun s => ?_
  dsimp only
  split
  · exact pure _
  · exact fail _
  · exact (modify _).bind fun _ => ((h _).undoing r _).bind fun v => (attempt _ _).bind fun _ => (modify _).bind fun _ => pure v

/-! ## Constructs -/

/-- Spending passes through every construct, from its parts. -/
theorem congruence (o : Observer σ) (settings : Settings) (fuel : Nat) :
    Congruence ⟨settings, o.keeping⟩ ⟨settings, o.keeping⟩ (fun x _ => Spends o fuel 0 x) fun x _ => Spends o fuel 1 x where
  strategy := rfl
  pure := pure
  bind := bind
  fail := fail
  stray := stray
  read h := state.bind fun s => h s s (.refl s)
  sameValues := sameValues
  newArray _ := modifyGet _
  newClosure _ _ _ := modifyGet _
  delay _ := state.bind fun _ => (modifyGet _).bind fun _ => pure _
  setElement _ _ _ _ := modify _
  write _ := modify _
  declare _ _ _ _ := attempt _ _
  declareGlobal _ _ _ _ := attempt _ _
  redefine _ _ _ := modify _
  assign _ _ _ := attempt _ _
  inFrame {_ _ _ tag} _ := inFrame tag
  inCall name span h := (checkDepth _ span).bind fun _ => h.inCall name
  after := bind
  forget := forget

/-- Every round of a loop enters a node. -/
theorem rounds {x : Eval (σ × List State) (Option Completion)} (h : Spends o fuel 1 x) :
    ∀ {k : Nat}, k ≤ fuel → Spends o k 0 (Eval.rounds x k)
  | 0, _ => exhausted
  | k + 1, less => by
    refine ((h.mono less).within k (fun c => ?_) (Nat.le_refl _)).forget
    cases c with
    | none => exact rounds h (Nat.le_of_succ_le less)
    | some c => exact pure c

/-- Every thunk that is followed enters the node of its expression. -/
theorem forceWithin {inner : Visitor (σ × List State)} (h : ∀ n, Spends o fuel 1 (inner.expression n)) :
    ∀ {k : Nat} (v : Value), k ≤ fuel → Spends o k 0 (inner.forceWithin k v)
  | 0, v, _ => exhausted
  | k + 1, v, less => by
    cases v with
    | lazy r =>
      refine compute r fun n => (((h n).mono less).within k (fun w => ?_) (Nat.le_refl _)).forget
      exact forceWithin h w (Nat.le_of_succ_le less)
    | _ => exact pure _

/-- Visitors spend their fuel on the rounds of loops and on thunks if their visits do. -/
theorem visitors (settings : Settings) (inner : Visitor (σ × List State)) (visits : ∀ n tag, Spends o inner.fuel 1 (inner.visit n tag)) :
    Congruence.Visitors (fun x _ => Spends o inner.fuel 0 x) (fun x _ => Spends o inner.fuel 1 x) inner inner where
  visitIn n tag _ := visits n tag
  rounds h := rounds h (Nat.le_refl _)
  force v := forceWithin (fun n => (congruence o settings inner.fuel).valueOf (y := inner.node n) (visits n .block)) v (Nat.le_refl _)

/-- Visits that nest as deep as there is fuel enter as many nodes. -/
theorem visit : ∀ (fuel : Nat) (n : Node) (tag : FrameTag), Spends o fuel 1 (Eval.visit ⟨settings, o.keeping⟩ fuel n tag)
  | 0, _, _ => exhausted
  | fuel + 1, n, _ =>
    bracket n.summary ((congruence o settings fuel).byForm (visitors settings ⟨_, fuel⟩ (visit fuel)) n trivial)

/-- A program that runs out of fuel has entered one node more than there was fuel: itself. -/
theorem program (fuel : Nat) (p : Program) :
    Spends o (fuel + 1) 1 (Eval.program ⟨settings, o.keeping⟩ (visitor ⟨settings, o.keeping⟩ fuel) p) := by
  rw [program_eq]
  exact bracket p.summary ((congruence o settings fuel).inside (visitors settings ⟨_, fuel⟩ (visit fuel)) p rfl)

end Spends
end Eval

/-! ## How many nodes are entered -/

namespace Trail
variable {settings : Settings} {s s' : State} {log : Log} {limit : Nat}

/-- Where an evaluation ends early, all its events have been counted, and perhaps an entry
    that was refused. -/
theorem Stopped.steps (h : Stopped settings s log s') : s'.steps ≤ s.steps + log.length + 1 := by
  induction h with
  | here => exact Nat.le_succ _
  | refused n never => exact Nat.le_refl _
  | after first second ih =>
    have := first.numbered.2
    rw [List.length_append]
    omega
  | @visit s s₁ log n may inner ih =>
    have : (s.entering n).steps = s.steps + 1 := rfl
    rw [List.length_cons]
    omega
  | frame plain inner ih => exact ih
  | call name may inner ih => exact ih
  | thunk waits opens inner ih => exact ih

/-- No more entries are announced than the limit allows, since all are numbered apart. -/
theorem Stopped.entries (h : Stopped settings s log s') (limited : settings.maxSteps = some limit) (start : s.steps = 0) :
    log.countP (·.1.isEnter) ≤ limit := by
  have numbered : log.map (·.2.steps) = List.range' (0 + 1) log.length := start ▸ h.numbered
  have few : ((List.range' (0 + 1) log.length).filter (· ≤ limit)).length ≤ (List.range' 1 limit).length := by
    refine (List.subperm_of_subset (.filter _ List.nodup_range') fun i member => ?_).length_le
    simp only [List.mem_filter, List.mem_range'_1, decide_eq_true_eq] at member ⊢
    omega
  calc log.countP (·.1.isEnter)
      ≤ log.countP (·.2.steps ≤ limit) :=
        List.countP_mono_left fun entry member enters => decide_eq_true (h.within limited entry member enters)
    _ = (log.map (·.2.steps)).countP (· ≤ limit) := by rw [List.countP_map]; rfl
    _ = ((List.range' (0 + 1) log.length).filter (· ≤ limit)).length := by rw [numbered, List.countP_eq_length_filter]
    _ ≤ limit := by simpa using few

end Trail

namespace Task

/-- How many entries of nodes a task announces. -/
def entries (t : Task) (s : State) : Nat := (t.log s).countP (·.1.isEnter)

/-- How many exits of nodes a task announces. -/
def exits (t : Task) (s : State) : Nat := (t.log s).countP (!·.1.isEnter)

theorem entries_eq (t : Task) (s : State) {m : Machine (t.memory × List State)} {s' : State}
    (ran : t.run s = (m.watch.2.reverse, s')) : t.entries s = Eval.entered m := by
  unfold entries log Eval.entered
  rw [ran, List.countP_filterMap, List.countP_reverse]
  congr 1
  funext u
  cases u.lastEvent with
  | none => rfl
  | some e => rfl

/-- Why a task ends early. -/
theorem due (t : Task) (s : State) : ∀ i, t.result s = .error i → match i with
    | .error _ | .endlessText => True
    | .halted => ∃ w e u, (t.observer.onStep w e u).2 = .halt
    | .outOfFuel => t.fuel < t.entries s
    | .endlessComparison => ∃ v w, (t.run s).2.memory.same? v w = none := by
  intro i ended
  obtain ⟨m, ran, left, -⟩ := t.ran s
  have spends : Eval.Spends t.observer (t.fuel + 1) 1 (Eval.program ⟨t.settings, t.observer.keeping⟩ _ t.program) :=
    Eval.Spends.program t.fuel t.program
  replace spends := spends ⟨s.beginEvaluation, (t.watch, [])⟩
  rw [ended] at ran left
  rw [ran] at spends
  cases i with
  | error e => trivial
  | endlessText => trivial
  | halted => exact spends
  | outOfFuel =>
    rw [t.entries_eq s left]
    have : Eval.entered (⟨s.beginEvaluation, (t.watch, [])⟩ : Machine (t.memory × List State)) + (t.fuel + 1) ≤ Eval.entered m := spends
    omega
  | endlessComparison =>
    rw [left]
    exact spends

/-- Why a task is at a loss to tell of a completion. -/
theorem due_endlessText (t : Task) (tasks : List Task) (ended : t.result (State.seeded.after tasks) = .error .endlessText) :
    (t.run (State.seeded.after tasks)).2.memory.Circular ∧
    (∃ (fuel : Nat) (n : Node) (m m' : Machine (t.memory × List State)) (v : Value),
      Eval.runOn ((Eval.visitor ⟨t.settings, t.observer.keeping⟩ fuel).node n) m = (.ok (.returned v), m') ∧
      m'.state.memory.Unending v ∧ (t.run (State.seeded.after tasks)).2.lastEvent = some (.exit n.summary)) ∧
    ∃ u ∈ t :: tasks, u.program.wellFormed = false := by
  have sound : (State.seeded.after tasks).Sound false := (State.Sound.seeded false).after fun _ _ _ _ => nofun
  obtain ⟨-, ⟨fuel, n, m, c, m', ran, wrong, same, last⟩, circular⟩ := (t.guarded sound fun _ _ => nofun).2 _ ended
  have unknown : c.outline? m'.state.memory = none := by
    rcases c.stray_cases n.label m'.state.memory with ⟨shown, -, told⟩ | ⟨unknown, -⟩
    · cases same.trans told
    · exact unknown
  obtain ⟨v, rfl | rfl, unending⟩ := Completion.outline?_eq_none.mp unknown
  · exact absurd rfl (wrong v)
  refine ⟨circular, ⟨fuel, n, m, m', v, ran, unending, last⟩, ?_⟩
  by_contra formed
  have formed (u : Task) (member : u ∈ t :: tasks) : u.program.wellFormed = true := by
    by_contra wrong
    exact formed ⟨u, member, Bool.eq_false_iff.mpr wrong⟩
  have strict : (State.seeded.after tasks).Sound true :=
    (State.Sound.seeded true).after fun u member => Program.stands_of_wellFormed (formed u (List.mem_cons_of_mem t member))
  exact Bool.noConfusion ((t.guarded strict (Program.stands_of_wellFormed (formed t List.mem_cons_self))).2 _ ended).1

/-- What a task has counted are its events, and perhaps an entry that was refused. -/
theorem steps_le (t : Task) (s : State) : (t.run s).2.steps ≤ t.entries s + t.exits s + 1 := by
  have events : (t.log s).length = t.entries s + t.exits s := by
    simpa [entries, exits] using List.length_eq_countP_add_countP (fun entry : Event × State => entry.1.isEnter)
  obtain ⟨-, -, trails⟩ := t.trails s
  rw [← events]
  cases ended : t.result s with
  | ok v =>
    rw [((t.bracketed s).2.2.1 v ended).2]
    exact Nat.le_succ _
  | error i =>
    rw [ended] at trails
    obtain ⟨s', cut, left⟩ := trails
    have counted : s'.steps ≤ 0 + (t.log s).length + 1 := cut.stopped.steps
    rw [Nat.zero_add] at counted
    rw [left]
    cases i with
    | error e =>
      have same : (s'.recover e).steps = s'.steps := (State.Calm.clearAll { s' with errors := _ } s'.stack).steps
      exact Nat.le_trans (Nat.le_of_eq same) counted
    | _ => exact counted

/-- Every run under a limit of steps ends by itself. Whatever the limits are, a run from any
    state uses up its fuel only by entering more nodes than it had fuel: no loop, no recursion
    and no thunk goes on without that. Under a limit of steps no more entries are announced
    than it allows, and at most one more is counted. So a run with that much fuel does not run
    out of it, and goes the same with any other fuel that is enough; unless it is halted by
    its observer it ends with a value or an error, in a comparison that has no answer, or at a
    loss to tell of a completion whose text has no end. On a state that programs have left this
    last is so only where an array contains itself and is returned by a node where a value is
    needed, and never where all programs are well-formed. -/
theorem terminates (t : Task) (s : State) :
    (t.result s = .error .outOfFuel → t.fuel < t.entries s) ∧
    (∀ limit, t.settings.maxSteps = some limit →
      t.entries s ≤ limit ∧ (t.run s).2.steps ≤ t.exits s + (limit + 1) ∧
      (limit ≤ t.fuel →
        (∀ fuel, limit ≤ fuel → (t.withFuel fuel).run s = t.run s ∧ (t.withFuel fuel).result s = t.result s) ∧
        (t.observer.Proceeds →
          (∃ v, t.result s = .ok v) ∨ (∃ e, t.result s = .error (.error e)) ∨
          (t.result s = .error .endlessComparison ∧ ∃ v w, (t.run s).2.memory.same? v w = none) ∨
          t.result s = .error .endlessText))) ∧
    ∀ tasks, s = State.seeded.after tasks → t.result s = .error .endlessText →
      (t.run s).2.memory.Circular ∧
      (∃ (fuel : Nat) (n : Node) (m m' : Machine (t.memory × List State)) (v : Value),
        Eval.runOn ((Eval.visitor ⟨t.settings, t.observer.keeping⟩ fuel).node n) m = (.ok (.returned v), m') ∧
        m'.state.memory.Unending v ∧ (t.run s).2.lastEvent = some (.exit n.summary)) ∧
      ∃ u ∈ t :: tasks, u.program.wellFormed = false := by
  have spent (t : Task) : t.result s = .error .outOfFuel → t.fuel < t.entries s := fun ended => t.due s _ ended
  refine ⟨spent t, fun limit limited => ?_, fun tasks same ended => same ▸ t.due_endlessText tasks (same ▸ ended)⟩
  have few (t : Task) (limited : t.settings.maxSteps = some limit) : t.entries s ≤ limit := by
    obtain ⟨s', stopped⟩ := t.stopped s
    exact stopped.entries limited rfl
  have lasts (t : Task) (limited : t.settings.maxSteps = some limit) (ample : limit ≤ t.fuel) :
      t.result s ≠ .error .outOfFuel := fun ended =>
    Nat.lt_irrefl _ (Nat.lt_of_le_of_lt ample (Nat.lt_of_lt_of_le (spent t ended) (few t limited)))
  have within := few t limited
  refine ⟨within, ?_, fun ample => ⟨fun fuel enough => ?_, fun proceeds => ?_⟩⟩
  · have := t.steps_le s
    omega
  · rcases Nat.le_total t.fuel fuel with more | less
    · exact t.run_withFuel s more (lasts t limited ample)
    · obtain ⟨run, result⟩ := (t.withFuel fuel).run_withFuel s less (lasts (t.withFuel fuel) limited enough)
      exact ⟨run.symm, result.symm⟩
  · have due := t.due s
    cases ended : t.result s with
    | ok v => exact .inl ⟨v, rfl⟩
    | error i =>
      cases i with
      | error e => exact .inr (.inl ⟨e, rfl⟩)
      | halted =>
        obtain ⟨w, e, u, halts⟩ := due _ ended
        cases (proceeds w e u).symm.trans halts
      | outOfFuel => exact absurd ended (lasts t limited ample)
      | endlessComparison => exact .inr (.inr (.inl ⟨rfl, due _ ended⟩))
      | endlessText => exact .inr (.inr (.inr rfl))

/-- A `for` loop without a test, an update or a block goes on for ever without a limit of
    steps, and not with it. -/
theorem bare_loop_terminates :
    let bare : Task :=
      ⟨{ maxSteps := some 5 }, .silent, (), 5, ⟨[Tree.forLoop none none none (Tree.expr (Tree.num 1.0))], none⟩⟩
    (bare.unlimited.result .seeded = .error .outOfFuel ∧ bare.fuel < bare.unlimited.entries .seeded) ∧
      (∃ e, bare.result .seeded = .error (.error e)) ∧ bare.entries .seeded ≤ 5 := by
  intro bare
  have exhausted : bare.unlimited.result .seeded = .error .outOfFuel := by decide +kernel
  have fails : bare.result .seeded = .error (.error (.stepLimit 5)) := by decide +kernel
  obtain ⟨few, -, -⟩ := (bare.terminates .seeded).2.1 5 rfl
  exact ⟨⟨exhausted, (bare.unlimited.terminates .seeded).1 exhausted⟩, ⟨_, fails⟩, few⟩

/-- An array that is its own element is returned where the value of a statement is needed: the
    run ends at a loss to tell of that, whatever its fuel, though it has a limit of steps and
    its observer does not halt it. -/
theorem self_containing_returned :
    let itself := Tree.expr (Tree.assign .plain (Tree.index (Tree.ident "a") (Tree.num 0.0)) (Tree.ident "a"))
    let t : Task := ⟨{ maxSteps := some 1000 }, .silent, (), 20, ⟨[Tree.arrayVar "int *" "a" (Tree.num 1.0) none, itself,
      Tree.expr (Tree.returnValue (some (Tree.ident "a")))], none⟩⟩
    t.observer.Proceeds ∧ ∀ fuel, t.fuel ≤ fuel → (t.withFuel fuel).result .seeded = .error .endlessText := by
  intro itself t
  have endless : t.result .seeded = .error .endlessText := by decide +kernel
  refine ⟨fun _ _ _ => rfl, fun fuel more => ?_⟩
  rw [(t.run_withFuel .seeded more (by rw [endless]; nofun)).2, endless]

end Task
end MiniC
