import MiniC.Proofs.Bracketing

/-!
# The limit of steps

The limit of steps is tested when a node is entered and not when it is left. So a run under
a limit announces no entry beyond it, and leaves at most the nodes that it had entered; it
goes as without the limit up to the first entry beyond it, and stops there
(`Task.steps_limited`).
-/

namespace MiniC
variable {σ α β : Type}

/-! ## How far a trail gets -/

/-- A state from which no more than twice as many steps are made as entries are allowed: each
    node being visited is still to be left. -/
structure State.WithinTwice (limit : Nat) (s : State) : Prop where
  nodes : s.nodes.length ≤ s.steps
  steps : s.steps + s.nodes.length ≤ 2 * limit

namespace Trail
variable {settings : Settings} {n : NodeSummary} {s s' : State} {log : Log} {limit : Nat}

/-- No entry is announced beyond the limit. -/
theorem within (h : Trail settings s log s') (limited : settings.maxSteps = some limit) :
    ∀ entry ∈ log, entry.1.isEnter = true → entry.2.steps ≤ limit := by
  induction h with
  | calm change => exact List.forall_mem_nil _
  | append first second ih ih' => exact List.forall_mem_append.mpr ⟨ih, ih'⟩
  | visit n may inner ih => exact Log.forall_around.mpr ⟨fun _ => may limit limited, ih, nofun⟩
  | frame plain inner ih => exact ih
  | call name may inner ih => exact ih
  | thunk v waits opens inner ih => exact ih

theorem Stopped.within (h : Stopped settings s log s') (limited : settings.maxSteps = some limit) :
    ∀ entry ∈ log, entry.1.isEnter = true → entry.2.steps ≤ limit := by
  induction h with
  | here | refused => exact List.forall_mem_nil _
  | after first second ih => exact List.forall_mem_append.mpr ⟨first.within limited, ih⟩
  | visit n may inner ih => exact List.forall_mem_cons.mpr ⟨fun _ => may limit limited, ih⟩
  | frame plain inner ih => exact ih
  | call name may inner ih => exact ih
  | thunk waits opens inner ih => exact ih

end Trail

namespace State.WithinTwice
variable {settings : Settings} {n : NodeSummary} {s s' : State} {limit : Nat}

theorem congr (h : s.WithinTwice limit) (nodes : s'.nodes = s.nodes) (steps : s'.steps = s.steps) :
    s'.WithinTwice limit := ⟨by rw [nodes, steps]; exact h.nodes, by rw [nodes, steps]; exact h.steps⟩

theorem entering (h : s.WithinTwice limit) (limited : settings.maxSteps = some limit) (may : s.MayStep settings) :
    (s.entering n).WithinTwice limit := by
  have nodes : (s.entering n).nodes.length = s.nodes.length + 1 := rfl
  have steps : (s.entering n).steps = s.steps + 1 := rfl
  have bound := may limit limited
  have := h.nodes
  constructor
  · omega
  · omega

theorem leaving (h : s.WithinTwice limit) (visiting : s.nodes ≠ []) : (s.leaving n).WithinTwice limit := by
  have nodes : (s.leaving n).nodes.length = s.nodes.length - 1 := List.length_tail
  have steps : (s.leaving n).steps = s.steps + 1 := rfl
  have := List.length_pos_iff.mpr visiting
  have := h.nodes
  have := h.steps
  constructor
  · omega
  · omega

theorem dropTop (h : s.WithinTwice limit) : s.dropTop.WithinTwice limit :=
  h.congr (State.Calm.dropTop s).nodes s.dropTop_steps

end State.WithinTwice

namespace Trail
variable {settings : Settings} {n : NodeSummary} {s s' : State} {log : Log} {limit : Nat}

theorem withinTwice (h : Trail settings s log s') (limited : settings.maxSteps = some limit)
    (start : s.WithinTwice limit) : s'.WithinTwice limit ∧ ∀ entry ∈ log, entry.2.WithinTwice limit := by
  induction h with
  | calm change => exact ⟨start.congr change.nodes change.steps, List.forall_mem_nil _⟩
  | append first second ih ih' =>
    obtain ⟨between, shown⟩ := ih start
    obtain ⟨done, shown'⟩ := ih' between
    exact ⟨done, List.forall_mem_append.mpr ⟨shown, shown'⟩⟩
  | @visit s s₁ log n may inner ih =>
    have entered := start.entering (n := n) limited may
    obtain ⟨done, shown⟩ := ih entered
    have left := done.leaving (n := n) (by rw [inner.nodes]; exact List.cons_ne_nil _ _)
    exact ⟨left, Log.forall_around.mpr ⟨entered, shown, left⟩⟩
  | frame plain inner ih =>
    obtain ⟨done, shown⟩ := ih (start.congr rfl rfl)
    exact ⟨done.dropTop, shown⟩
  | call name may inner ih =>
    obtain ⟨done, shown⟩ := ih (start.congr rfl rfl)
    exact ⟨done.dropTop.congr rfl rfl, shown⟩
  | thunk v waits opens inner ih =>
    obtain ⟨done, shown⟩ := ih (start.congr rfl rfl)
    exact ⟨done.dropTop.congr rfl rfl, shown⟩

theorem Stopped.withinTwice (h : Stopped settings s log s') (limited : settings.maxSteps = some limit)
    (start : s.WithinTwice limit) : ∀ entry ∈ log, entry.2.WithinTwice limit := by
  induction h with
  | here | refused => exact List.forall_mem_nil _
  | after first second ih =>
    obtain ⟨between, shown⟩ := first.withinTwice limited start
    exact List.forall_mem_append.mpr ⟨shown, ih between⟩
  | visit n may inner ih =>
    have entered := start.entering (n := n) limited may
    exact List.forall_mem_cons.mpr ⟨entered, ih entered⟩
  | frame plain inner ih => exact ih (start.congr rfl rfl)
  | call name may inner ih => exact ih (start.congr rfl rfl)
  | thunk waits opens inner ih => exact ih (start.congr rfl rfl)

end Trail

/-! ## With the limit and without it -/

/-- The same settings without a limit of steps. -/
def Settings.unlimited (settings : Settings) : Settings := { settings with maxSteps := none }

/-- An entry beyond the limit is announced. -/
def State.Beyond (limit : Nat) (s : State) : Prop := limit < s.steps ∧ ∃ n, s.lastEvent = some (.enter n)

namespace Eval

/-- What has been kept stays, whatever an evaluation adds to it. -/
def Keeps (x : Eval (σ × List State) α) : Prop := ∀ m, ∃ more, (runOn x m).2.watch.2 = more ++ m.watch.2

namespace Keeps
variable {settings : Settings} {o : Observer σ}

theorem quiet {x : Eval (σ × List State) α} (h : ∀ m, (runOn x m).2.watch = m.watch) : Keeps x :=
  fun m => ⟨[], by rw [h]; rfl⟩

theorem bind {x : Eval (σ × List State) α} {f : α → Eval (σ × List State) β} (first : Keeps x)
    (second : ∀ a, Keeps (f a)) : Keeps (x >>= f) := by
  intro m
  obtain ⟨more, grown⟩ := first m
  rw [runOn_bind]
  generalize runOn x m = outcome at grown ⊢
  obtain ⟨⟨i⟩ | ⟨a⟩, m₁⟩ := outcome
  · exact ⟨more, grown⟩
  · obtain ⟨more', grown'⟩ := second a m₁
    exact ⟨more' ++ more, by rw [List.append_assoc, ← grown]; exact grown'⟩

theorem pure (a : α) : Keeps (σ := σ) (pure a) := quiet fun _ => rfl

theorem leaveCall (name : String) (n : Nat) (a : α) : Keeps (σ := σ) (do Eval.leaveCall name n; Pure.pure a) := by
  refine bind (quiet fun m => ?_) fun _ => pure a
  obtain ⟨result, s', same, -⟩ := exists_runOn_leaveCall name n m.state
  rw [show m = ⟨m.state, m.watch⟩ from rfl, same]

theorem inCall {x : Eval (σ × List State) α} (name : String) (h : Keeps x) : Keeps (Eval.inCall name x) :=
  bind (quiet fun _ => rfl) fun n => h.bind (leaveCall name n)

theorem exit (n : NodeSummary) (a : α) : Keeps (do Eval.exit ⟨settings, o.keeping⟩ n; Pure.pure a) := by
  refine bind ?_ fun _ => pure a
  rintro ⟨s, w⟩
  refine ⟨[s.leaving n], ?_⟩
  rw [Traces.runOn_leaving, Observer.keeping_onStep]
  generalize (o.onStep w.1 (.exit n) (s.leaving n)).2 = action
  cases action with
  | proceed => rfl
  | halt => rfl

/-- What is shown to a keeping observer is kept. -/
theorem of_trails {b : Bool} {x : Eval (σ × List State) α} (h : Trails ⟨settings, o.keeping⟩ b x) : Keeps x := by
  intro m
  have run := h m
  generalize runOn x m = outcome at run ⊢
  obtain ⟨⟨i⟩ | ⟨a⟩, m'⟩ := outcome
  · obtain ⟨log, -, watched, -⟩ := run
    exact ⟨(log.map (·.2)).reverse, by rw [watched, Observer.shown_keeping]⟩
  · obtain ⟨log, -, watched, -⟩ := run
    exact ⟨(log.map (·.2)).reverse, by rw [watched, Observer.shown_keeping]⟩

end Keeps

/-- The first evaluation goes as the second one does, or exceeds the limit where the second one
    announces an entry beyond it. -/
def Curbed (limit : Nat) (x y : Eval (σ × List State) α) : Prop := ∀ m, runOn x m = runOn y m ∨
  ∃ m' later s, runOn x m = (.error (.error (.stepLimit limit)), m') ∧ s.Beyond limit ∧
    (runOn y m).2.watch.2 = later ++ s :: m'.watch.2

namespace Curbed
variable {limit : Nat} {settings : Settings} {o : Observer σ}

theorem same (x : Eval (σ × List State) α) : Curbed limit x x := fun _ => .inl rfl

theorem bind {x y : Eval (σ × List State) α} {f g : α → Eval (σ × List State) β} (first : Curbed limit x y)
    (keeps : ∀ a, Keeps (g a)) (second : ∀ a, Curbed limit (f a) (g a)) : Curbed limit (x >>= f) (y >>= g) := by
  intro m
  rw [runOn_bind, runOn_bind]
  rcases first m with equal | ⟨m', later, s, stopped, beyond, kept⟩
  · rw [equal]
    generalize runOn y m = outcome
    obtain ⟨⟨i⟩ | ⟨a⟩, m₁⟩ := outcome
    · exact .inl rfl
    · exact second a m₁
  · rw [stopped]
    generalize runOn y m = outcome at kept ⊢
    obtain ⟨⟨i⟩ | ⟨a⟩, m₁⟩ := outcome
    · exact .inr ⟨m', later, s, rfl, beyond, kept⟩
    · -- the second evaluation goes on, after what it has announced
      obtain ⟨more, grown⟩ := keeps a m₁
      exact .inr ⟨m', more ++ later, s, rfl, beyond, by rw [List.append_assoc, ← kept]; exact grown⟩

theorem enter (limited : settings.maxSteps = some limit) (n : NodeSummary) :
    Curbed limit (Eval.enter ⟨settings, o.keeping⟩ n) (Eval.enter ⟨settings.unlimited, o.keeping⟩ n) := by
  rintro ⟨s, w⟩
  let free : Context (σ × List State) := ⟨settings.unlimited, o.keeping⟩
  have unlimited : s.MayStep free.settings := nofun
  rw [Traces.runOn_entering n unlimited]
  by_cases may : s.MayStep settings
  · rw [Traces.runOn_entering n may]
    exact .inl rfl
  · obtain ⟨limit', reached, beyond, refused⟩ := Traces.runOn_refused ⟨settings, o.keeping⟩ n may w
    cases limited.symm.trans reached
    rw [refused, Observer.keeping_onStep]
    refine .inr ⟨_, [], s.entering n, rfl, ⟨beyond, n, rfl⟩, ?_⟩
    dsimp only
    generalize (o.onStep w.1 (.enter n) (s.entering n)).2 = action
    cases action with
    | proceed => rfl
    | halt => rfl

theorem inFrame {x y : Eval (σ × List State) α} (tag : FrameTag) (h : Curbed limit x y) :
    Curbed limit (Eval.inFrame tag x) (Eval.inFrame tag y) := by
  intro m
  rw [runOn_inFrame, runOn_inFrame]
  rcases h { m with state := (m.state.push tag).2 } with equal | ⟨m', later, s, stopped, beyond, kept⟩
  · rw [equal]
    exact .inl rfl
  · rw [stopped]
    refine .inr ⟨m', later, s, rfl, beyond, ?_⟩
    generalize runOn y _ = outcome at kept ⊢
    obtain ⟨⟨i⟩ | ⟨a⟩, m₁⟩ := outcome
    · exact kept
    · dsimp only
      cases m₁.state.popFault? m.state.frames.size with
      | some e => exact kept
      | none => exact kept

theorem inCall {x y : Eval (σ × List State) α} (name : String) (keeps : Keeps y) (h : Curbed limit x y) :
    Curbed limit (Eval.inCall name x) (Eval.inCall name y) :=
  (same _).bind (fun n => keeps.bind (.leaveCall name n)) fun n => h.bind (.leaveCall name n) fun _ => same _

theorem bracket {x y : Eval (σ × List State) α} (limited : settings.maxSteps = some limit) (n : NodeSummary)
    (keeps : Keeps y) (h : Curbed limit x y) :
    Curbed limit (do Eval.enter ⟨settings, o.keeping⟩ n; let a ← x; Eval.exit ⟨settings, o.keeping⟩ n; Pure.pure a)
      (do Eval.enter ⟨settings.unlimited, o.keeping⟩ n; let a ← y; Eval.exit ⟨settings.unlimited, o.keeping⟩ n; Pure.pure a) :=
  (enter limited n).bind (fun _ => keeps.bind (.exit n)) fun _ => h.bind (.exit n) fun _ => same _

theorem compute {x y : Node → Eval (σ × List State) Value} (r : ThunkRef) (h : ∀ n, Curbed limit (x n) (y n)) :
    Curbed limit (Eval.compute r x) (Eval.compute r y) := by
  intro m
  rw [runOn_compute, runOn_compute]
  dsimp only
  cases (m.state.memory.thunk r).phase with
  | forced v => exact .inl rfl
  | forcing => exact .inl rfl
  | pending =>
    dsimp only
    rcases h (m.state.memory.thunk r).expression
      { m with state := (m.state.setPhase r .forcing).reenter (m.state.memory.thunk r).home } with
      equal | ⟨m', later, s, stopped, beyond, kept⟩
    · rw [equal]
      exact .inl rfl
    · rw [stopped]
      refine .inr ⟨_, later, s, rfl, beyond, ?_⟩
      generalize runOn (y (m.state.memory.thunk r).expression) _ = outcome at kept ⊢
      obtain ⟨⟨i⟩ | ⟨v⟩, m₁⟩ := outcome
      · exact kept
      · dsimp only
        cases m₁.state.popFault? (m.state.memory.thunk r).home.number with
        | some e => exact kept
        | none => exact kept

/-- Being curbed passes through every construct. -/
theorem lockstep (o : Observer σ) (limited : settings.maxSteps = some limit) :
    Lockstep ⟨settings, o.keeping⟩ ⟨settings.unlimited, o.keeping⟩ (· = ·)
      (fun x y => Curbed limit x y ∧ Trails ⟨settings.unlimited, o.keeping⟩ false y)
      (fun x y => Curbed limit x y ∧ Trails ⟨settings.unlimited, o.keeping⟩ true y) fun tag => ∀ f, tag ≠ .call f where
  strategy := rfl
  pure a := ⟨same _, .pure a⟩
  bind hx hf := ⟨hx.1.bind (fun a => .of_trails (hf a).2) fun a => (hf a).1, hx.2.bind fun a => (hf a).2⟩
  fail e := ⟨same _, .stop (.error e)⟩
  stray _ _ := ⟨same _, .bind .state fun _ => .stop _⟩
  read h := ⟨(same _).bind (fun s => .of_trails (h s s (.refl s)).2) fun s => (h s s (.refl s)).1,
    .bind .state fun s => (h s s (.refl s)).2⟩
  sameValues v w := ⟨same _, (Trails.lockstep _).sameValues v w⟩
  newArray elements := ⟨same _, (Trails.lockstep _).newArray elements⟩
  newClosure name params body := ⟨same _, (Trails.lockstep _).newClosure name params body⟩
  delay n := ⟨same _, (Trails.lockstep _).delay n⟩
  setElement r i v _ := ⟨same _, (Trails.lockstep _).setElement r i v trivial⟩
  write text := ⟨same _, (Trails.lockstep _).write text⟩
  declare name kind v span := ⟨same _, (Trails.lockstep _).declare name kind v span⟩
  declareGlobal name kind v span := ⟨same _, (Trails.lockstep _).declareGlobal name kind v span⟩
  redefine name kind v := ⟨same _, (Trails.lockstep _).redefine name kind v⟩
  assign name v span := ⟨same _, (Trails.lockstep _).assign name v span⟩
  block := nofun
  loop := nofun
  inFrame plain h := ⟨inFrame _ h.1, .inFrame plain h.2⟩
  inCall name span h := ⟨(same _).bind (fun _ => (Keeps.of_trails h.2).inCall name) fun _ =>
    inCall name (.of_trails h.2) h.1, .inCall name span h.2⟩
  compute r h := ⟨compute r fun n => (h n).1, .compute r fun n => (h n).2⟩
  bracket n h := ⟨bracket limited n (.of_trails h.2) h.1, .bracket n h.2⟩
  after hx hf := ⟨hx.1.bind (fun a => .of_trails (hf a).2) fun a => (hf a).1, hx.2.bind fun a => (hf a).2⟩
  quit := ⟨same _, .stop _⟩
  forget h := ⟨h.1, h.2.forget⟩
  fuels_zero h := .inl h.symm
  fuels_succ h := ⟨_, h.symm, rfl⟩

end Curbed
end Eval

/-! ## Tasks -/

/-- The same task without a limit of steps. -/
def Task.unlimited (t : Task) : Task := { t with settings := t.settings.unlimited }

/-- A task goes as it does without the limit, or exceeds it at the first entry beyond it. -/
theorem Task.curbed (t : Task) (s : State) {limit : Nat} (limited : t.settings.maxSteps = some limit) :
    (t.run s = t.unlimited.run s ∧ t.result s = t.unlimited.result s) ∨
    (t.result s = .error (.error (.stepLimit limit)) ∧
      ∃ u later, (t.unlimited.run s).1 = (t.run s).1 ++ u :: later ∧ u.Beyond limit) := by
  obtain ⟨m, ran, left, -⟩ := t.ran s
  obtain ⟨m', ran', left', -⟩ := t.unlimited.ran s
  rcases ((Eval.Curbed.lockstep t.observer limited).program (rfl : t.fuel = t.fuel) t.program rfl).1
    ⟨s.beginEvaluation, (t.watch, [])⟩ with equal | ⟨m₁, later, u, stopped, beyond, kept⟩
  · obtain ⟨result, rfl⟩ := Prod.mk.inj (ran.symm.trans (equal.trans ran'))
    exact .inl ⟨by rw [left, left', result], result⟩
  · obtain ⟨result, rfl⟩ := Prod.mk.inj (ran.symm.trans stopped)
    have kept' : m'.watch.2 = later ++ u :: m.watch.2 := by
      rw [← kept]
      exact (congrArg (·.2.watch.2) ran').symm
    refine .inr ⟨result, u, later.reverse, ?_, beyond⟩
    rw [left, left', kept']
    simp

/-- The run of a task under a limit of steps, from any state. No entry beyond the limit is
    announced; exits may be, but at every event the steps made and the nodes that are still
    to be left are together no more than twice the limit, and so are the steps of a task
    that ends with a value. If without the limit all entries stay within it, the limit
    changes nothing; otherwise the task fails because of it, and the events announced are
    those before the first entry beyond it. -/
theorem Task.steps_limited (t : Task) (s : State) (limit : Nat) (limited : t.settings.maxSteps = some limit) :
    (∀ entry ∈ t.log s, entry.1.isEnter = true → entry.2.steps ≤ limit) ∧
    (∀ entry ∈ t.log s, entry.2.steps + entry.2.nodes.length ≤ 2 * limit) ∧
    (∀ v, t.result s = .ok v → (t.run s).2.steps ≤ 2 * limit) ∧
    ((∀ entry ∈ t.unlimited.log s, entry.1.isEnter = true → entry.2.steps ≤ limit) →
      t.run s = t.unlimited.run s ∧ t.result s = t.unlimited.result s) ∧
    ((∃ entry ∈ t.unlimited.log s, entry.1.isEnter = true ∧ limit < entry.2.steps) →
      t.result s = .error (.error (.stepLimit limit)) ∧
      t.log s = (t.unlimited.log s).takeWhile fun entry => !(entry.1.isEnter && decide (limit < entry.2.steps))) := by
  obtain ⟨s', stopped⟩ := t.stopped s
  have start : s.beginEvaluation.WithinTwice limit := ⟨Nat.le_refl 0, Nat.zero_le _⟩
  have within := stopped.within limited
  have twice := stopped.withinTwice limited start
  refine ⟨within, fun entry member => (twice entry member).steps, fun v done => ?_, fun all => ?_, fun some => ?_⟩
  · obtain ⟨-, -, trails⟩ := t.trails s
    rw [done] at trails
    obtain ⟨log, s₁, may, trail, left, -⟩ := trails
    have ended := ((Trail.visit t.program.summary may trail).withinTwice limited start).1.steps
    rw [← left] at ended
    omega
  · rcases t.curbed s limited with same | ⟨-, u, later, run, beyond, n, event⟩
    · exact same
    · have member : (.enter n, u) ∈ t.unlimited.log s := by
        refine List.mem_filterMap.mpr ⟨u, by rw [run]; simp, by rw [event]; rfl⟩
      exact absurd (all _ member rfl) (Nat.not_le.mpr beyond)
  · rcases t.curbed s limited with ⟨run, -⟩ | ⟨result, u, later, run, beyond, n, event⟩
    · obtain ⟨entry, member, enters, beyond⟩ := some
      have same : t.unlimited.log s = t.log s := by rw [log, log, run]
      rw [same] at member
      exact absurd (within entry member enters) (Nat.not_le.mpr beyond)
    · have longer : t.unlimited.log s = t.log s ++ (.enter n, u) :: later.filterMap fun u => u.lastEvent.map (·, u) := by
        rw [log, run, List.filterMap_append, List.filterMap_cons, event]
        rfl
      refine ⟨result, ?_⟩
      rw [longer, List.takeWhile_append_of_pos, List.takeWhile_cons_of_neg, List.append_nil]
      · simp [Event.isEnter, beyond]
      · intro entry member
        have := within entry member
        cases enters : entry.1.isEnter with
        | false => rfl
        | true => simpa using this enters

/-- A loop without end is stopped at its second round, after the exit of its body. -/
theorem Task.endless_loop_stopped :
    let endless : Task := ⟨{ maxSteps := some 5 }, .silent, (), 20, ⟨[Tree.whileLoop (Tree.bool true) (Tree.block [])], none⟩⟩
    endless.settings.maxSteps = some 5 ∧ endless.result .seeded = .error (.error (.stepLimit 5)) ∧
      (endless.log .seeded).map (·.2.steps) = [1, 2, 3, 4, 5, 6] := by
  intro endless
  have exceeds : (endless.unlimited.log .seeded).any (fun entry => entry.1.isEnter && decide (5 < entry.2.steps)) = true := by
    decide +kernel
  obtain ⟨entry, member, beyond⟩ := List.any_eq_true.mp exceeds
  rw [Bool.and_eq_true, decide_eq_true_eq] at beyond
  refine ⟨rfl, ((endless.steps_limited .seeded 5 rfl).2.2.2.2 ⟨entry, member, beyond⟩).1, ?_⟩
  decide +kernel

/-- The empty program ends with a value under a limit of one step, in two steps: its exit is
    announced beyond the limit. -/
theorem Task.exit_beyond_limit :
    let empty : Task := ⟨{ maxSteps := some 1 }, .silent, (), 20, ⟨[], none⟩⟩
    (∃ v, empty.result .seeded = .ok v) ∧ (empty.run .seeded).2.steps = 2 ∧
      (empty.log .seeded).map (fun entry => (entry.1, entry.2.steps)) =
        [(.enter ⟨.program, none⟩, 1), (.exit ⟨.program, none⟩, 2)] := by
  intro empty
  have ends : (empty.result .seeded).isOk = true := by decide +kernel
  cases ended : empty.result .seeded with
  | error i =>
    rw [ended] at ends
    cases ends
  | ok v => exact ⟨⟨v, rfl⟩, by decide +kernel, by decide +kernel⟩

end MiniC
