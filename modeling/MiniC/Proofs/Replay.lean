import MiniC.Proofs.Lockstep
import MiniC.Proofs.Outcome

/-!
# Runs under different observers

An observer has no way to act on an evaluation but to halt it. So one run under an
observer that halts nowhere and keeps a log of all events tells how the run goes
under any other: the observer is shown the log, and if it halts at an entry the
run ends there, in the state of that entry (`Replays`, `program_replays`). Halting
unwinds through the thunks that are being computed, which wait again afterwards;
nothing else of the state changes (`Frozen`).
-/

namespace MiniC
variable {σ α β : Type}

/-! ## Logs -/

/-- Events with the states at which they were announced, in order. -/
abbrev Log := List (Event × State)

namespace Observer

/-- The observer that halts nowhere and logs every event, the last one first. -/
def logging : Observer Log := .recording Prod.mk

/-- Shows a log to an observer, up to the first entry at which it halts. Yields what
    it remembers then, and the state of that entry. -/
def follow (o : Observer σ) (w : σ) : Log → σ × Option State
  | [] => (w, none)
  | (e, s) :: rest =>
    match o.onStep w e s with
    | (w, .proceed) => o.follow w rest
    | (w, .halt) => (w, some s)

theorem follow_append (o : Observer σ) (log more : Log) : ∀ w : σ,
    o.follow w (log ++ more) =
      match o.follow w log with
      | (w, none) => o.follow w more
      | (w, some s) => (w, some s) := by
  induction log with
  | nil => exact fun w => rfl
  | cons entry rest ih =>
    intro w
    simp only [List.cons_append, follow]
    split
    · exact ih _
    · rfl

/-- A recorder sees all of a log. -/
theorem follow_recording (view : Event → State → α) (log : Log) : ∀ seen : List α,
    (recording view).follow seen log = ((log.map fun entry => view entry.1 entry.2).reverse ++ seen, none) := by
  induction log with
  | nil => exact fun seen => rfl
  | cons entry rest ih =>
    intro seen
    show (recording view).follow (view entry.1 entry.2 :: seen) rest = _
    rw [ih]
    simp

/-- An observer that halts where a predicate holds does so at the first such entry. -/
theorem follow_haltingAt (p : Event → State → Bool) (w : σ) : ∀ log : Log,
    (haltingAt p).follow w log = (w, (log.find? fun entry => p entry.1 entry.2).map (·.2))
  | [] => rfl
  | (e, s) :: rest => by
    have ih := follow_haltingAt p w rest
    cases holds : p e s <;> simp [follow, haltingAt, holds, List.find?] at ih ⊢
    exact ih

/-- An observer that never halts. -/
def Proceeds (o : Observer σ) : Prop := ∀ w e s, (o.onStep w e s).2 = .proceed

/-- An observer that never halts is shown all of a log. -/
theorem Proceeds.follow {o : Observer σ} (h : o.Proceeds) : ∀ (w : σ) (log : Log), (o.follow w log).2 = none
  | _, [] => rfl
  | w, (e, s) :: rest => by
    unfold Observer.follow
    rw [show o.onStep w e s = ((o.onStep w e s).1, .proceed) from Prod.ext rfl (h w e s)]
    exact h.follow _ rest

/-- An observer halts at an entry of the log. -/
theorem follow_mem (o : Observer σ) : ∀ {w w' : σ} {log : Log} {s : State},
    o.follow w log = (w', some s) → ∃ e, (e, s) ∈ log
  | w, w', [], s, h => nomatch h
  | w, w', (e, t) :: rest, s, h => by
    unfold follow at h
    split at h
    · obtain ⟨e', member⟩ := o.follow_mem h
      exact ⟨e', List.mem_cons_of_mem _ member⟩
    · cases h
      exact ⟨e, List.mem_cons_self⟩

end Observer

/-! ## What halting leaves behind -/

/-- Thunks that were being computed may wait again; all else is as it was. -/
structure Memory.Released (m m' : Memory) : Prop where
  arrays : m'.arrays = m.arrays
  closures : m'.closures = m.closures
  size : m'.thunks.size = m.thunks.size
  thunks (r : ThunkRef) : m'.thunk r = m.thunk r ∨
    ((m.thunk r).phase = .forcing ∧ m'.thunk r = { m.thunk r with phase := .pending })

/-- The state of a suspension point, but for thunks that were being computed. -/
structure State.Frozen (s s' : State) : Prop where
  memory : s.memory.Released s'.memory
  rest : s' = { s with memory := s'.memory }

namespace Memory

theorem Released.refl (m : Memory) : m.Released m := ⟨rfl, rfl, rfl, fun _ => .inl rfl⟩

/-- One more thunk that was being computed may wait again. -/
theorem Released.setPhase {m m' : Memory} (h : m.Released m') {r : ThunkRef}
    (forcing : (m.thunk r).phase = .forcing) : m.Released (m'.setPhase r .pending) where
  arrays := h.arrays
  closures := h.closures
  size := by simpa [Memory.setPhase] using h.size
  thunks q := by
    rw [thunk_setPhase]
    split
    · rename_i same
      obtain ⟨rfl, -⟩ := same
      rcases h.thunks q with same | ⟨-, same⟩
      · exact .inr ⟨forcing, by rw [same]⟩
      · exact .inr ⟨forcing, by rw [same]⟩
    · exact h.thunks q

end Memory

namespace State

theorem Frozen.refl (s : State) : s.Frozen s := ⟨.refl s.memory, rfl⟩

theorem Frozen.setPhase {s s' : State} (h : s.Frozen s') {r : ThunkRef}
    (forcing : (s.memory.thunk r).phase = .forcing) : s.Frozen (s'.setPhase r .pending) where
  memory := h.memory.setPhase forcing
  rest := by
    rw [h.rest]
    rfl

/-- Whether a thunk is being computed. -/
def Forcing (s : State) (r : ThunkRef) : Prop := (s.memory.thunk r).phase = .forcing

/-- What is being computed does not change by allocating a thunk. -/
theorem forcing_newThunk {s : State} {r : ThunkRef} (h : s.Forcing r) (n : Node) (home : FrameRef) :
    State.Forcing { s with memory := (s.memory.newThunk n home).2 } r := by
  have inside := Memory.lt_of_phase (m := s.memory) (r := r) (by rw [h]; exact fun _ => nofun)
  show ((s.memory.newThunk n home).2.thunk r).phase = .forcing
  rw [Memory.thunk_newThunk n home inside]
  exact h

theorem forcing_setPhase {s : State} {r q : ThunkRef} (phase : Phase) (h : s.Forcing q)
    (other : q = r → phase = .forcing) : (s.setPhase r phase).Forcing q := by
  show ((s.memory.setPhase r phase).thunk q).phase = .forcing
  rw [Memory.thunk_setPhase]
  split
  · rename_i same
    exact other same.1
  · exact h

end State

/-! ## Courses -/

namespace Eval

/-- How an evaluation goes that nobody halts: its result, the state it leaves and
    what it has announced. -/
structure Course (α : Type) where
  result : Except Interrupt α
  state : State
  log : Log

/-- A course from a state. The log shows each event in the state that it is the last
    event of, steps are counted one by one, and what was being computed when the
    course began goes on being so. -/
structure Course.From (c : Course α) (s : State) : Prop where
  events : ∀ entry ∈ c.log, entry.2.lastEvent = some entry.1
  steps : c.log.map (·.2.steps) = List.range' (s.steps + 1) c.log.length
  final (a : α) : c.result = .ok a → c.state.steps = s.steps + c.log.length
  forcing (r : ThunkRef) : s.Forcing r → ∀ entry ∈ c.log, entry.2.Forcing r
  forcingAfter (r : ThunkRef) : s.Forcing r → ∀ a, c.result = .ok a → c.state.Forcing r

/-- The end of a course under an observer: its own end if the observer halts
    nowhere, and else the state of the entry where it halts. -/
def Course.EndsUnder (c : Course α) (o : Observer σ) (w : σ) (found : Except Interrupt α × Machine σ) : Prop :=
  match o.follow w c.log with
  | (w, none) => found = (c.result, ⟨c.state, w⟩)
  | (w, some t) => ∃ t' : State, t.Frozen t' ∧ found = (.error .halted, ⟨t', w⟩)

namespace Course

/-- Courses follow one another: the second begins where the first succeeds. -/
theorem From.append {s s' s'' : State} {a : α} {result : Except Interrupt β} {log more : Log}
    (h : From ⟨.ok a, s', log⟩ s) (h' : From ⟨result, s'', more⟩ s') : From ⟨result, s'', log ++ more⟩ s where
  events entry member := by
    rcases List.mem_append.mp member with first | second
    · exact h.events entry first
    · exact h'.events entry second
  steps := by
    have counted := h.steps
    have counted' := h'.steps
    dsimp only at counted counted' ⊢
    rw [List.map_append, counted, counted', h.final a rfl, List.length_append, Nat.add_right_comm, List.range'_append_1]
  final b done := by
    have steps := h.final a rfl
    have steps' := h'.final b done
    dsimp only at steps steps' ⊢
    rw [steps', steps, List.length_append, Nat.add_assoc]
  forcing r busy entry member := by
    rcases List.mem_append.mp member with first | second
    · exact h.forcing r busy entry first
    · exact h'.forcing r (h.forcingAfter r busy a rfl) entry second
  forcingAfter r busy := h'.forcingAfter r (h.forcingAfter r busy a rfl)

/-- What is done after a course has no say in how it ends if the observer halts in it. -/
theorem EndsUnder.andThen {o : Observer σ} {w : σ} {c : Course α} {c' : Course β} {more : Log}
    {found : Except Interrupt α × Machine σ} {found' : Except Interrupt β × Machine σ}
    (h : c.EndsUnder o w found) (shown : c'.log = c.log ++ more)
    (goesOn : ∀ w', found = (c.result, ⟨c.state, w'⟩) → EndsUnder ⟨c'.result, c'.state, more⟩ o w' found')
    (halted : ∀ e t t' w', (e, t) ∈ c.log → t.Frozen t' → found = (.error .halted, ⟨t', w'⟩) →
      ∃ t'', t.Frozen t'' ∧ found' = (.error .halted, ⟨t'', w'⟩)) : c'.EndsUnder o w found' := by
  unfold EndsUnder at h ⊢
  rw [shown, Observer.follow_append]
  split at h
  · rename_i w' follows
    exact goesOn w' h
  · rename_i w' t follows
    obtain ⟨t', frozen, h⟩ := h
    obtain ⟨e, member⟩ := o.follow_mem follows
    exact halted e t t' w' member frozen h

end Course

/-- The second evaluation logs the course that the first takes under an observer,
    from one state. -/
def ReplaysFrom (o : Observer σ) (x : Eval σ α) (y : Eval Log α) (s : State) : Prop :=
  ∃ c : Course α, c.From s ∧
    (∀ seen, runOn y ⟨s, seen⟩ = (c.result, ⟨c.state, c.log.reverse ++ seen⟩)) ∧
    ∀ w, c.EndsUnder o w (runOn x ⟨s, w⟩)

/-- The second evaluation logs the course of the first, from every state. -/
def Replays (o : Observer σ) (x : Eval σ α) (y : Eval Log α) : Prop := ∀ s, ReplaysFrom o x y s

namespace Replays
variable {o : Observer σ}

/-- An evaluation that announces nothing, and does the same on both sides. -/
theorem quiet {x : Eval σ α} {y : Eval Log α}
    (h : ∀ s : State, ∃ (result : Except Interrupt α) (s' : State),
      (∀ w, runOn x ⟨s, w⟩ = (result, ⟨s', w⟩)) ∧ (∀ w, runOn y ⟨s, w⟩ = (result, ⟨s', w⟩)) ∧
      s'.steps = s.steps ∧ ∀ r, s.Forcing r → s'.Forcing r) : Replays o x y := by
  intro s
  obtain ⟨result, s', onX, onY, steps, forcing⟩ := h s
  have orderly : Course.From ⟨result, s', []⟩ s :=
    ⟨by simp, rfl, fun _ _ => steps, by simp, fun r h _ _ => forcing r h⟩
  exact ⟨_, orderly, onY, onX⟩

theorem pure (a : α) : Replays o (pure a) (pure a) :=
  quiet fun s => ⟨.ok a, s, fun _ => rfl, fun _ => rfl, rfl, fun _ h => h⟩

theorem stop (i : Interrupt) : Replays o (α := α) (throw i) (throw i) :=
  quiet fun s => ⟨.error i, s, fun _ => rfl, fun _ => rfl, rfl, fun _ h => h⟩

theorem state : Replays o Eval.state Eval.state :=
  quiet fun s => ⟨.ok s, s, fun _ => rfl, fun _ => rfl, rfl, fun _ h => h⟩

theorem modifyGet (f : State → α × State) (steps : ∀ s, (f s).2.steps = s.steps)
    (forcing : ∀ s r, s.Forcing r → (f s).2.Forcing r) : Replays o (Eval.modifyGet f) (Eval.modifyGet f) :=
  quiet fun s => ⟨.ok (f s).1, (f s).2, fun _ => rfl, fun _ => rfl, steps s, forcing s⟩

theorem modify (f : State → State) (steps : ∀ s, (f s).steps = s.steps)
    (forcing : ∀ s r, s.Forcing r → (f s).Forcing r) : Replays o (Eval.modify f) (Eval.modify f) :=
  modifyGet (fun s => ((), f s)) steps forcing

theorem attempt (fault? : State → Option EvalError) (change : State → State)
    (steps : ∀ s, (change s).steps = s.steps) (forcing : ∀ s r, s.Forcing r → (change s).Forcing r) :
    Replays o (Eval.attempt fault? change) (Eval.attempt fault? change) := by
  refine quiet fun s => ?_
  simp only [runOn_attempt]
  cases fault? s with
  | some e => exact ⟨_, s, fun _ => rfl, fun _ => rfl, rfl, fun _ h => h⟩
  | none => exact ⟨_, change s, fun _ => rfl, fun _ => rfl, steps s, forcing s⟩

/-- Courses follow one another: the second begins where the first succeeds. -/
theorem bind {x : Eval σ α} {y : Eval Log α} {f : α → Eval σ β} {g : α → Eval Log β}
    (first : Replays o x y) (second : ∀ a, Replays o (f a) (g a)) : Replays o (x >>= f) (y >>= g) := by
  intro s
  obtain ⟨⟨result, s', log⟩, orderly, logged, ends⟩ := first s
  cases result with
  | error i =>
    refine ⟨⟨.error i, s', log⟩, ⟨orderly.events, orderly.steps, nofun, orderly.forcing, fun _ _ => nofun⟩, ?_, ?_⟩
    · intro seen
      rw [runOn_bind, logged]
    · intro w
      rw [runOn_bind]
      refine (ends w).andThen (List.append_nil _).symm (fun w' h => ?_) fun e t t' w' _ frozen h => ⟨t', frozen, ?_⟩
      · rw [h]
        rfl
      · rw [h]
  | ok a =>
    obtain ⟨⟨result, s'', more⟩, orderly', logged', ends'⟩ := second a s'
    refine ⟨⟨result, s'', log ++ more⟩, orderly.append orderly', ?_, ?_⟩
    · intro seen
      rw [runOn_bind, logged]
      dsimp only
      rw [logged', List.reverse_append, List.append_assoc]
    · intro w
      rw [runOn_bind]
      refine (ends w).andThen rfl (fun w' h => ?_) fun e t t' w' _ frozen h => ⟨t', frozen, ?_⟩
      · rw [h]
        exact ends' w'
      · rw [h]

/-! ## Frames, calls and thunks -/

theorem pop (n : Nat) : Replays o (Eval.pop n) (Eval.pop n) :=
  attempt _ _ (fun s => by simp) fun s r h => by simpa [State.Forcing] using h

theorem inFrame {x : Eval σ α} {y : Eval Log α} (tag : FrameTag) (h : Replays o x y) :
    Replays o (Eval.inFrame tag x) (Eval.inFrame tag y) :=
  bind (modifyGet _ (fun _ => rfl) fun _ _ h => h) fun n => bind h fun a => bind (pop n) fun _ => pure a

theorem leaveCall (name : String) (n : Nat) : Replays o (Eval.leaveCall name n) (Eval.leaveCall name n) := by
  refine quiet fun s => ?_
  obtain ⟨result, s', left, change⟩ := exists_runOn_leaveCall name n s
  have same : s'.steps = s.steps ∧ s'.memory = s.memory := by
    rcases change with rfl | rfl | rfl <;> simp [State.popCall]
  refine ⟨_, s', left, left, same.1, fun r h => ?_⟩
  rwa [State.Forcing, same.2]

theorem inCall {x : Eval σ α} {y : Eval Log α} (name : String) (h : Replays o x y) :
    Replays o (Eval.inCall name x) (Eval.inCall name y) :=
  bind (modifyGet _ (fun _ => rfl) fun _ _ h => h) fun n => bind h fun a =>
    bind (leaveCall name n) fun _ => pure a

/-- A thunk is being computed at every entry of the course of its expression. If
    that is halted, only the thunk's own phase is put back. -/
theorem compute {x : Node → Eval σ Value} {y : Node → Eval Log Value} (r : ThunkRef)
    (h : ∀ n, Replays o (x n) (y n)) : Replays o (Eval.compute r x) (Eval.compute r y) := by
  intro s
  unfold ReplaysFrom
  simp only [runOn_compute]
  cases phase : (s.memory.thunk r).phase with
  | forced v => exact pure v s
  | forcing => exact stop _ s
  | pending =>
    have inside : r.index < s.memory.thunks.size := Memory.lt_of_phase (by simp [phase])
    have begun : State.Forcing ((s.setPhase r .forcing).reenter (s.memory.thunk r).home) r := by
      show ((s.memory.setPhase r .forcing).thunk r).phase = .forcing
      rw [Memory.thunk_setPhase, if_pos ⟨rfl, inside⟩]
    have still (q : ThunkRef) (hq : s.Forcing q) :
        State.Forcing ((s.setPhase r .forcing).reenter (s.memory.thunk r).home) q :=
      State.forcing_setPhase .forcing hq fun _ => rfl
    obtain ⟨⟨result, t, log⟩, orderly, logged, ends⟩ :=
      h (s.memory.thunk r).expression ((s.setPhase r .forcing).reenter (s.memory.thunk r).home)
    -- the course of the thunk has the log of its expression, whatever its end
    have same_log {result' : Except Interrupt Value} {t' : State}
        (final : ∀ v, result' = .ok v → ∃ v', result = .ok v' ∧ t'.steps = t.steps ∧
          ∀ q, s.Forcing q → t.Forcing q → t'.Forcing q) : Course.From ⟨result', t', log⟩ s := by
      refine ⟨orderly.events, orderly.steps, ?_, fun q hq => orderly.forcing q (still q hq), ?_⟩
      · intro v h
        obtain ⟨v', h, steps, -⟩ := final v h
        exact steps.trans (orderly.final v' h)
      · intro q hq v h
        obtain ⟨v', h, -, forcing⟩ := final v h
        exact forcing q hq (orderly.forcingAfter q (still q hq) v' h)
    have halted {e : Event} {u u' : State} (member : (e, u) ∈ log) (frozen : u.Frozen u') :
        u.Frozen (u'.setPhase r .pending) := frozen.setPhase (orderly.forcing r begun _ member)
    cases result with
    | error i =>
      refine ⟨⟨.error i, t.setPhase r .pending, log⟩, same_log nofun, ?_, ?_⟩
      · intro seen
        simp only [logged]
      · intro w
        refine (ends w).andThen (List.append_nil _).symm (fun w' h => ?_)
          fun e u u' w' member frozen h => ⟨_, halted member frozen, ?_⟩
        · rw [h]
          rfl
        · simp only [h]
    | ok v =>
      cases fault : t.popFault? (s.memory.thunk r).home.number with
      | some e =>
        refine ⟨⟨.error (.error e), t, log⟩, same_log nofun, ?_, ?_⟩
        · intro seen
          simp only [logged, fault]
        · intro w
          refine (ends w).andThen (List.append_nil _).symm (fun w' h => ?_)
            fun e u u' w' member frozen h => ⟨_, halted member frozen, ?_⟩
          · simp only [h, fault]
            rfl
          · simp only [h]
      | none =>
        refine ⟨⟨.ok v, t.dropTop.setPhase r (.forced v), log⟩, same_log ?_, ?_, ?_⟩
        · intro v' h
          refine ⟨v, rfl, t.dropTop_steps, fun q hq ht => ?_⟩
          refine State.forcing_setPhase _ (by simpa [State.Forcing] using ht) fun same => ?_
          rw [same] at hq
          exact absurd (phase.symm.trans hq) nofun
        · intro seen
          simp only [logged, fault]
        · intro w
          refine (ends w).andThen (List.append_nil _).symm (fun w' h => ?_)
            fun e u u' w' member frozen h => ⟨_, halted member frozen, ?_⟩
          · simp only [h, fault]
            rfl
          · simp only [h]

/-! ## Events -/

/-- An event is logged with the next step. -/
theorem announced (ctx : Context σ) (change : State → State) (e : Event)
    (steps : ∀ s, (change s).steps = s.steps + 1) (memory : ∀ s, (change s).memory = s.memory) (s : State) :
    ∃ c : Course Unit, c.From s ∧
      (∀ seen, runOn (suspend ⟨ctx.settings, .logging⟩ e) ⟨change s, seen⟩ =
        (c.result, ⟨c.state, c.log.reverse ++ seen⟩)) ∧
      ∀ w, c.EndsUnder ctx.observer w (runOn (suspend ctx e) ⟨change s, w⟩) := by
  have forcing (r : ThunkRef) (h : s.Forcing r) : State.Forcing { change s with lastEvent := some e } r := by
    show ((change s).memory.thunk r).phase = .forcing
    rw [memory]
    exact h
  refine ⟨⟨.ok (), { change s with lastEvent := some e }, [(e, { change s with lastEvent := some e })]⟩,
    ⟨?_, ?_, ?_, ?_, ?_⟩, ?_, ?_⟩
  · simp
  · simp [steps]
  · simp [steps]
  · simpa using forcing
  · exact fun r h _ _ => forcing r h
  · exact fun seen => rfl
  · intro w
    unfold Course.EndsUnder Observer.follow
    rw [runOn_suspend]
    dsimp only
    rcases ctx.observer.onStep w e { change s with lastEvent := some e } with ⟨w', action⟩
    cases action with
    | proceed => rfl
    | halt => exact ⟨_, .refl _, rfl⟩

theorem enter (ctx : Context σ) (n : NodeSummary) :
    Replays ctx.observer (Eval.enter ctx n) (Eval.enter ⟨ctx.settings, .logging⟩ n) := by
  intro s
  unfold ReplaysFrom
  simp only [runOn_enter]
  cases ctx.settings.maxSteps.filter (· < s.steps + 1) with
  | some limit =>
    refine ⟨⟨.error (.error (.stepLimit limit)), s.enterNode n, []⟩, ⟨by simp, rfl, nofun, by simp, ?_⟩, ?_, ?_⟩
    · exact fun _ _ _ => nofun
    · exact fun _ => rfl
    · exact fun _ => rfl
  | none => exact announced ctx (·.enterNode n) (.enter n) (fun _ => rfl) (fun _ => rfl) s

theorem exit (ctx : Context σ) (n : NodeSummary) :
    Replays ctx.observer (Eval.exit ctx n) (Eval.exit ⟨ctx.settings, .logging⟩ n) := by
  intro s
  unfold ReplaysFrom
  simp only [runOn_exit]
  exact announced ctx (·.leaveNode) (.exit n) (fun _ => rfl) (fun _ => rfl) s

theorem checkDepth {o : Observer σ} (limit : Nat) (span : Option Span) :
    Replays o (Eval.checkDepth limit span) (Eval.checkDepth limit span) :=
  bind state fun _ => by
    split
    · exact stop _
    · exact pure ()

/-- Logging passes through every construct. -/
theorem lockstep (ctx : Context σ) :
    Lockstep ctx ⟨ctx.settings, Observer.logging⟩ (· = ·) (Replays ctx.observer) (Replays ctx.observer) where
  strategy := rfl
  pure := pure
  bind := bind
  fail e := stop (.error e)
  stray _ _ := bind state fun _ => stop _
  read h := bind state fun s => h s s (.refl s)
  sameValues v w := bind state fun s => by
    cases s.memory.same? v w with
    | none => exact stop _
    | some same => exact pure same
  newArray _ := modifyGet _ (fun _ => rfl) fun _ _ h => h
  newClosure _ _ _ := modifyGet _ (fun _ => rfl) fun _ _ h => h
  delay n := bind state fun s =>
    bind (modifyGet _ (fun _ => rfl) fun _ _ h => State.forcing_newThunk h n s.top) fun r => pure (Value.lazy r)
  setElement _ _ _ _ := modify _ (fun _ => rfl) fun _ _ h => h
  write _ := modify _ (fun _ => rfl) fun _ _ h => h
  declare _ _ _ _ := attempt _ _ (fun _ => by simp) fun _ _ h => by simpa [State.Forcing] using h
  declareGlobal _ _ _ _ := attempt _ _ (fun _ => by simp) fun _ _ h => by simpa [State.Forcing] using h
  redefine _ _ _ := modify _ (fun _ => by simp) fun _ _ h => by simpa [State.Forcing] using h
  assign _ _ _ := attempt _ _ (fun _ => by simp) fun _ _ h => by simpa [State.Forcing] using h
  inFrame {_ _ _ tag} _ := inFrame tag
  inCall name span h := bind (checkDepth _ span) fun _ => inCall name h
  compute := compute
  bracket n h := bind (enter ctx n) fun _ => bind h fun a => bind (exit ctx n) fun _ => pure a
  after := bind
  quit := stop _
  forget := id
  fuels_zero h := .inl h.symm
  fuels_succ h := ⟨_, h.symm, rfl⟩

end Replays

/-- The run of a program has one course. It tells how the run goes under any
    observer, from any memory of it. -/
theorem program_replays (settings : Settings) (fuel : Nat) (p : Program) (s : State) :
    ∃ c : Course Value, c.From s ∧
      (∀ seen, runOn (program ⟨settings, Observer.logging⟩ (visitor ⟨settings, .logging⟩ fuel) p) ⟨s, seen⟩ =
        (c.result, ⟨c.state, c.log.reverse ++ seen⟩)) ∧
      ∀ (σ : Type) (o : Observer σ) (w : σ),
        c.EndsUnder o w (runOn (program ⟨settings, o⟩ (visitor ⟨settings, o⟩ fuel) p) ⟨s, w⟩) := by
  have replays {σ : Type} (o : Observer σ) := ((Replays.lockstep ⟨settings, o⟩).program (rfl : fuel = fuel) p rfl) s
  obtain ⟨c, orderly, logged, -⟩ := replays Observer.logging
  refine ⟨c, orderly, logged, fun σ o w => ?_⟩
  obtain ⟨c', -, logged', ends⟩ := replays o
  -- there is only one course to log
  have same : c' = c := by
    have h := (logged []).symm.trans (logged' [])
    simp only [List.append_nil, Prod.mk.injEq, Machine.mk.injEq, List.reverse_inj] at h
    obtain ⟨result, state, log⟩ := h
    cases c
    cases c'
    cases result
    cases state
    cases log
    rfl
  exact same ▸ ends w

end Eval
end MiniC
