import MiniC.Proofs.Change

/-!
# Outcomes of evaluations

How an evaluation made of smaller ones succeeds, and how it runs.
-/

namespace MiniC
variable {σ α β : Type}

/-- The frame on top can be popped under its own number. -/
theorem State.popFault?_eq_none {s : State} {r : FrameRef} {rest : List FrameRef} (stack : s.stack = r :: rest) :
    s.popFault? r.number = none := by
  unfold popFault?
  rw [stack]
  exact if_pos rfl

namespace Eval

/-! ## Success -/

/-- A sequence succeeds when both of its parts do. -/
theorem bind_eq_ok {x : Eval σ α} {f : α → Eval σ β} {m m'' : Machine σ} {b : β} :
    (x >>= f) m = .ok b m'' ↔ ∃ a m', x m = .ok a m' ∧ f a m' = .ok b m'' := by
  show EStateM.bind x f m = .ok b m'' ↔ _
  unfold EStateM.bind
  cases x m with
  | ok a m' =>
    constructor
    · intro h
      exact ⟨a, m', rfl, h⟩
    · rintro ⟨a', m₁, h, h'⟩
      cases h
      exact h'
  | error i m' => simp

theorem pure_eq_ok {a b : α} {m m' : Machine σ} :
    (pure a : Eval σ α) m = .ok b m' ↔ a = b ∧ m = m' := by
  show EStateM.Result.ok a m = .ok b m' ↔ _
  simp

theorem state_eq_ok {s : State} {m m' : Machine σ} : Eval.state m = .ok s m' ↔ m.state = s ∧ m = m' := by
  simp [Eval.state]

theorem modify_eq_ok {f : State → State} {m m' : Machine σ} {u : Unit} :
    Eval.modify f m = .ok u m' ↔ m' = { m with state := f m.state } := by
  simp [Eval.modify, eq_comm]

theorem throw_ne_ok {i : Interrupt} {m m' : Machine σ} {a : α} : (throw i : Eval σ α) m ≠ .ok a m' := nofun

theorem fail_ne_ok {e : EvalError} {m m' : Machine σ} {a : α} : (fail e : Eval σ α) m ≠ .ok a m' := nofun

theorem ofExcept_eq_ok {x : Except EvalError α} {m m' : Machine σ} {a : α} :
    ofExcept x m = .ok a m' ↔ x = .ok a ∧ m = m' := by
  cases x with
  | ok b => exact pure_eq_ok.trans (by simp)
  | error e => exact iff_of_false fail_ne_ok fun h => by cases h.1

/-- A change that can go wrong succeeds when nothing is wrong with it. -/
theorem attempt_eq_ok {fault? : State → Option EvalError} {change : State → State} {m m' : Machine σ}
    {u : Unit} : attempt fault? change m = .ok u m' ↔ fault? m.state = none ∧ m' = { m with state := change m.state } := by
  unfold attempt
  simp only [bind_eq_ok, state_eq_ok]
  constructor
  · rintro ⟨_, _, ⟨rfl, rfl⟩, h⟩
    revert h
    cases fault? m.state with
    | some e => exact fun h => absurd h fail_ne_ok
    | none => exact fun h => ⟨rfl, modify_eq_ok.mp h⟩
  · rintro ⟨none, rfl⟩
    exact ⟨_, _, ⟨rfl, rfl⟩, by simp only [none]; rfl⟩

theorem undoing_eq_ok {undo : State → State} {x : Eval σ α} {m m' : Machine σ} {a : α} :
    undoing undo x m = .ok a m' ↔ x m = .ok a m' := by
  unfold undoing
  cases x m with
  | ok a m' => simp
  | error i m' => simp

/-! ## Runs -/

theorem runOn_state_bind (f : State → Eval σ α) (m : Machine σ) : runOn (state >>= f) m = runOn (f m.state) m := rfl

/-- A sequence goes on where its first part has ended, if that succeeds. -/
theorem runOn_bind (x : Eval σ α) (f : α → Eval σ β) (m : Machine σ) :
    runOn (x >>= f) m =
      match runOn x m with
      | (.ok a, m') => runOn (f a) m'
      | (.error i, m') => (.error i, m') := by
  have whole : (x >>= f) m = EStateM.bind x f m := rfl
  unfold runOn
  rw [whole]
  unfold EStateM.bind
  cases x m with
  | ok a m' => rfl
  | error i m' => rfl

theorem runOn_undoing (undo : State → State) (x : Eval σ α) (m : Machine σ) :
    runOn (undoing undo x) m =
      match runOn x m with
      | (.ok a, m') => (.ok a, m')
      | (.error i, m') => (.error i, { m' with state := undo m'.state }) := by
  unfold runOn undoing
  cases x m with
  | ok a m' => rfl
  | error i m' => rfl

theorem runOn_attempt (fault? : State → Option EvalError) (change : State → State) (m : Machine σ) :
    runOn (attempt fault? change) m =
      match fault? m.state with
      | some e => (.error (.error e), m)
      | none => (.ok (), { m with state := change m.state }) := by
  unfold attempt
  rw [runOn_bind]
  show runOn (match fault? m.state with | some e => fail e | none => modify change) m = _
  cases fault? m.state with
  | some e => rfl
  | none => rfl

theorem runOn_suspend (ctx : Context σ) (e : Event) (s : State) (w : σ) :
    runOn (suspend ctx e) ⟨s, w⟩ =
      match ctx.observer.onStep w e { s with lastEvent := some e } with
      | (w, .proceed) => (.ok (), ⟨{ s with lastEvent := some e }, w⟩)
      | (w, .halt) => (.error .halted, ⟨{ s with lastEvent := some e }, w⟩) := by
  unfold runOn suspend
  dsimp only
  rcases ctx.observer.onStep w e { s with lastEvent := some e } with ⟨w', action⟩
  cases action with
  | proceed => rfl
  | halt => rfl

/-- A node is entered if one more step is allowed, which counts either way. -/
theorem runOn_enter (ctx : Context σ) (n : NodeSummary) (s : State) (w : σ) :
    runOn (enter ctx n) ⟨s, w⟩ =
      match ctx.settings.maxSteps.filter (· < s.steps + 1) with
      | some limit => (.error (.error (.stepLimit limit)), ⟨s.enterNode n, w⟩)
      | none => runOn (suspend ctx (.enter n)) ⟨s.enterNode n, w⟩ := by
  have counted : (s.enterNode n).steps = s.steps + 1 := rfl
  unfold enter
  rw [runOn_bind]
  show runOn _ ⟨s.enterNode n, w⟩ = _
  cases ctx.settings.maxSteps with
  | none => rfl
  | some limit =>
    dsimp only
    rw [runOn_bind]
    show runOn (if limit < (s.enterNode n).steps then _ else _) ⟨s.enterNode n, w⟩ = _
    rw [counted]
    by_cases exceeded : limit < s.steps + 1
    · simp only [exceeded, Option.filter_some, decide_true, if_true]
      rfl
    · simp only [exceeded, Option.filter_some, decide_false, if_false, Bool.false_eq_true]

theorem runOn_exit (ctx : Context σ) (n : NodeSummary) (s : State) (w : σ) :
    runOn (exit ctx n) ⟨s, w⟩ = runOn (suspend ctx (.exit n)) ⟨s.leaveNode, w⟩ := rfl

/-- A thunk that waits is computed in its own frame. It waits again if that fails. -/
theorem runOn_compute (r : ThunkRef) (x : Node → Eval σ Value) (m : Machine σ) :
    runOn (compute r x) m =
      let thunk := m.state.memory.thunk r
      match thunk.phase with
      | .forced v => (.ok v, m)
      | .forcing => (.error (.error (.cyclicThunk thunk.expression.loc)), m)
      | .pending =>
        match runOn (x thunk.expression) { m with state := (m.state.setPhase r .forcing).reenter thunk.home } with
        | (.ok v, m) =>
          match m.state.popFault? thunk.home.number with
          | some e => (.error (.error e), m)
          | none => (.ok v, { m with state := m.state.dropTop.setPhase r (.forced v) })
        | (.error i, m) => (.error i, { m with state := m.state.setPhase r .pending }) := by
  unfold compute
  rw [runOn_bind]
  show runOn _ m = _
  cases phase : (m.state.memory.thunk r).phase with
  | forced v =>
    simp only [phase]
    rfl
  | forcing =>
    simp only [phase]
    rfl
  | pending =>
    simp only [phase]
    rw [runOn_bind]
    show runOn _ { m with state := (m.state.setPhase r .forcing).reenter (m.state.memory.thunk r).home } = _
    rw [runOn_bind, runOn_undoing]
    rcases runOn (x (m.state.memory.thunk r).expression) _ with ⟨result, m₁⟩
    cases result with
    | error i => rfl
    | ok v =>
      dsimp only
      rw [runOn_bind]
      unfold pop
      rw [runOn_attempt]
      cases m₁.state.popFault? (m.state.memory.thunk r).home.number with
      | some e => rfl
      | none => rfl

/-- Inside a frame everything happens between its push and its pop, however it ends. -/
theorem runOn_inFrame (tag : FrameTag) (x : Eval σ α) (m : Machine σ) :
    runOn (inFrame tag x) m =
      match runOn x { m with state := (m.state.push tag).2 } with
      | (.ok a, m₁) =>
        match m₁.state.popFault? m.state.frames.size with
        | some e => (.error (.error e), m₁)
        | none => (.ok a, { m₁ with state := m₁.state.dropTop })
      | (.error i, m₁) => (.error i, m₁) := by
  unfold inFrame
  rw [runOn_bind]
  show runOn (x >>= _) { m with state := (m.state.push tag).2 } = _
  rw [runOn_bind]
  rcases runOn x { m with state := (m.state.push tag).2 } with ⟨⟨i⟩ | ⟨a⟩, m₁⟩
  · rfl
  · dsimp only
    unfold pop
    rw [runOn_bind, runOn_attempt]
    cases m₁.state.popFault? m.state.frames.size with
    | some e => rfl
    | none => rfl

/-- A call is left from its own frame, and finds its record and the frame of its caller. -/
theorem runOn_leaveCall (name : String) (n : Nat) (m : Machine σ) :
    runOn (leaveCall name n) m =
      if m.state.top.number ≠ n then (.error (.error (.invariant (.coveredCall name m.state.top.number n))), m)
      else match m.state.popFault? n with
        | some e => (.error (.error e), m)
        | none =>
          let s := m.state.dropTop
          match s.calls with
          | [] => (.error (.error (.invariant (.missingCall name))), { m with state := s })
          | call :: _ =>
            if call.frame ≠ n ∨ s.popCall.top.number ≠ call.caller then
              (.error (.error (.invariant (.wrongCaller name s.popCall.top.number call.caller))), { m with state := s.popCall })
            else (.ok (), { m with state := s.popCall }) := by
  unfold leaveCall
  rw [runOn_state_bind]
  by_cases covered : m.state.top.number ≠ n
  · rw [if_pos covered]
    dsimp only
    rw [if_pos covered]
    rfl
  · rw [if_neg covered]
    dsimp only
    rw [if_neg covered, runOn_bind]
    unfold pop
    rw [runOn_attempt]
    cases m.state.popFault? n with
    | some e => rfl
    | none =>
      dsimp only
      rw [runOn_state_bind]
      cases calls : m.state.dropTop.calls with
      | nil => rfl
      | cons call rest =>
        dsimp only
        rw [runOn_bind]
        show runOn (if call.frame ≠ n ∨ m.state.dropTop.popCall.top.number ≠ call.caller then _ else _) _ = _
        split
        · rfl
        · rfl

/-- Leaving a call fails or succeeds, the same whatever the observer remembers. The frame on
    top may be gone afterwards, and the record of the call; nothing else changes. -/
theorem exists_runOn_leaveCall (name : String) (n : Nat) (s : State) : ∃ (result : Except EvalError Unit) (s' : State),
    (∀ {τ : Type} (w : τ), runOn (leaveCall name n) ⟨s, w⟩ = (result.mapError .error, ⟨s', w⟩)) ∧
      (s' = s ∨ s' = s.dropTop ∨ s' = s.dropTop.popCall) := by
  simp only [runOn_leaveCall]
  split
  · exact ⟨.error _, _, fun _ => rfl, .inl rfl⟩
  · split
    · exact ⟨.error _, _, fun _ => rfl, .inl rfl⟩
    · split
      · exact ⟨.error _, _, fun _ => rfl, .inr (.inl rfl)⟩
      · split
        · exact ⟨.error _, _, fun _ => rfl, .inr (.inr rfl)⟩
        · exact ⟨.ok (), _, fun _ => rfl, .inr (.inr rfl)⟩

/-- One more call is allowed, or not; nothing changes either way. -/
theorem runOn_checkDepth (limit : Nat) (span : Option Span) (m : Machine σ) :
    runOn (checkDepth limit span) m =
      if limit ≤ m.state.callDepth then (.error (.error (.callDepth limit span)), m) else (.ok (), m) := by
  unfold checkDepth
  rw [runOn_state_bind]
  split
  · rfl
  · rfl

/-- Inside a call everything happens between its entry and its leave, however it ends. -/
theorem runOn_inCall (name : String) (x : Eval σ α) (m : Machine σ) :
    runOn (inCall name x) m =
      match runOn x { m with state := ((m.state.pushInside (.call name) .global).2.pushCall
          ⟨name, m.state.top.number, m.state.frames.size⟩) } with
      | (.ok a, m₁) =>
        match runOn (leaveCall name m.state.frames.size) m₁ with
        | (.ok (), m₂) => (.ok a, m₂)
        | (.error i, m₂) => (.error i, m₂)
      | (.error i, m₁) => (.error i, m₁) := by
  unfold inCall
  rw [runOn_bind]
  show runOn (x >>= fun a => leaveCall name m.state.frames.size >>= fun _ => pure a)
    { m with state := ((m.state.pushInside (.call name) .global).2.pushCall
        ⟨name, m.state.top.number, m.state.frames.size⟩) } = _
  rw [runOn_bind]
  rcases runOn x { m with state := ((m.state.pushInside (.call name) .global).2.pushCall
      ⟨name, m.state.top.number, m.state.frames.size⟩) } with ⟨⟨i⟩ | ⟨a⟩, m₁⟩
  · rfl
  · dsimp only
    rw [runOn_bind]
    rcases runOn (leaveCall name m.state.frames.size) m₁ with ⟨⟨i⟩ | ⟨⟩, m₂⟩
    · rfl
    · rfl

/-- What is stored under a name is fitted to the kind of the place. -/
theorem runOn_writeNamed (name : String) (kind : Kind) (v : Value) (span : Option Span) (m : Machine σ) :
    runOn (writePlace (.named name kind) v span) m =
      match v.cast kind span with
      | .error e => (.error (.error e), m)
      | .ok w =>
        match m.state.assignFault? name span with
        | some e => (.error (.error e), m)
        | none => (.ok w, { m with state := m.state.store name w }) := by
  unfold writePlace Eval.assign
  rw [show v.castTo? (Place.named name kind).kind? span = v.cast kind span from rfl]
  cases v.cast kind span with
  | error e => rfl
  | ok w =>
    show runOn (attempt _ _ >>= fun _ => pure w) m = _
    rw [runOn_bind, runOn_attempt]
    cases m.state.assignFault? name span with
    | some e => rfl
    | none => rfl

/-- What is stored in an array is fitted to the kind of the place, if that is known. -/
theorem runOn_writeElement (r : ArrayRef) (i : Nat) (kind : Option Kind) (v : Value) (span : Option Span)
    (m : Machine σ) :
    runOn (writePlace (.element r i kind) v span) m =
      match v.castTo? kind span with
      | .error e => (.error (.error e), m)
      | .ok w => (.ok w, { m with state := { m.state with memory := m.state.memory.setElement r i w } }) := by
  unfold writePlace
  rw [show (Place.element r i kind).kind? = kind from rfl]
  cases v.castTo? kind span with
  | error e => rfl
  | ok w => rfl

theorem runOn_of_eq_ok {x : Eval σ α} {m m' : Machine σ} {a : α} (done : x m = .ok a m') : runOn x m = (.ok a, m') := by
  unfold runOn
  rw [done]

theorem runOn_eq_ok {x : Eval σ α} {m m' : Machine σ} {a : α} : runOn x m = (.ok a, m') ↔ x m = .ok a m' := by
  refine ⟨fun done => ?_, runOn_of_eq_ok⟩
  unfold runOn at done
  split at done
  · rename_i ended
    cases done
    exact ended
  · cases done

/-! ## Frames, calls and thunks -/

/-- Inside a frame everything happens between its push and its pop. -/
theorem inFrame_eq_ok {tag : FrameTag} {x : Eval σ α} {m m' : Machine σ} {a : α} :
    inFrame tag x m = .ok a m' ↔
      ∃ m₁, x { m with state := (m.state.push tag).2 } = .ok a m₁ ∧
        m₁.state.popFault? m.state.frames.size = none ∧ m' = { m₁ with state := m₁.state.dropTop } := by
  unfold inFrame pop
  simp only [bind_eq_ok, attempt_eq_ok, pure_eq_ok]
  constructor
  · rintro ⟨n, m₀, pushed, b, m₁, evaluated, _, _, ⟨fine, rfl⟩, rfl, rfl⟩
    cases pushed
    exact ⟨m₁, evaluated, fine, rfl⟩
  · rintro ⟨m₁, evaluated, fine, rfl⟩
    exact ⟨_, _, rfl, a, m₁, evaluated, (), _, ⟨fine, rfl⟩, rfl, rfl⟩

/-- A call is left from its own frame, which the caller's frame lies under. -/
theorem leaveCall_eq_ok {name : String} {n : Nat} {m m' : Machine σ} :
    leaveCall name n m = .ok () m' ↔
      m.state.top.number = n ∧ m.state.popFault? n = none ∧
      ∃ call rest, m.state.calls = call :: rest ∧ call.frame = n ∧
        m.state.dropTop.top.number = call.caller ∧ m' = { m with state := m.state.dropTop.popCall } := by
  unfold leaveCall pop
  simp only [bind_eq_ok, state_eq_ok]
  constructor
  · rintro ⟨_, _, ⟨rfl, rfl⟩, h⟩
    split at h
    · obtain ⟨_, _, failed, -⟩ := bind_eq_ok.mp h
      exact absurd failed fail_ne_ok
    · rename_i same
      simp only [bind_eq_ok, state_eq_ok, attempt_eq_ok] at h
      obtain ⟨_, _, ⟨fine, rfl⟩, s, _, ⟨rfl, rfl⟩, h⟩ := h
      refine ⟨Decidable.not_not.mp same, fine, ?_⟩
      simp only [State.dropTop_calls] at h
      cases calls : m.state.calls with
      | nil =>
        simp only [calls] at h
        exact absurd h fail_ne_ok
      | cons call rest =>
        simp only [calls, bind_eq_ok, state_eq_ok, modify_eq_ok] at h
        obtain ⟨_, _, rfl, s, _, ⟨rfl, rfl⟩, h⟩ := h
        split at h
        · exact absurd h fail_ne_ok
        · rename_i proper
          obtain ⟨-, rfl⟩ := pure_eq_ok.mp h
          rw [not_or, Decidable.not_not, Decidable.not_not] at proper
          exact ⟨call, rest, rfl, proper.1, proper.2, rfl⟩
  · rintro ⟨same, fine, call, rest, calls, frame, caller, rfl⟩
    refine ⟨_, _, ⟨rfl, rfl⟩, ?_⟩
    rw [if_neg (Decidable.not_not.mpr same)]
    simp only [bind_eq_ok, state_eq_ok, attempt_eq_ok]
    refine ⟨(), _, ⟨fine, rfl⟩, _, _, ⟨rfl, rfl⟩, ?_⟩
    simp only [State.dropTop_calls, calls, bind_eq_ok, state_eq_ok, modify_eq_ok]
    refine ⟨(), _, rfl, _, _, ⟨rfl, rfl⟩, ?_⟩
    rw [if_neg (by rw [not_or, Decidable.not_not, Decidable.not_not]; exact ⟨frame, caller⟩)]
    rfl

/-- A call that is left as it was entered takes its frame and its record with it. -/
theorem runOn_leaveCall_of_control {m : Machine σ} {name : String} {n : Nat} {caller : FrameRef} {rest : List FrameRef}
    {calls : List CallBoundary} (stack : m.state.stack = .numbered n :: rest) (under : rest.headD .global = caller)
    (recorded : m.state.calls = ⟨name, caller.number, n⟩ :: calls) :
    runOn (leaveCall name n) m = (.ok (), { m with state := m.state.dropTop.popCall }) := by
  refine runOn_of_eq_ok (leaveCall_eq_ok.mpr ⟨?_, ?_, _, calls, recorded, rfl, ?_, rfl⟩)
  · rw [State.top, stack]
    rfl
  · exact State.popFault?_eq_none (r := .numbered n) stack
  · rw [State.top, State.dropTop_stack, stack, List.tail_cons, under]

/-- Inside a call everything happens between its entry and its leave. -/
theorem inCall_eq_ok {name : String} {x : Eval σ α} {m m' : Machine σ} {a : α} :
    inCall name x m = .ok a m' ↔
      ∃ m₁, x { m with state := ((m.state.pushInside (.call name) .global).2.pushCall
            ⟨name, m.state.top.number, m.state.frames.size⟩) } = .ok a m₁ ∧
        leaveCall name m.state.frames.size m₁ = .ok () m' := by
  unfold inCall
  simp only [bind_eq_ok, pure_eq_ok]
  constructor
  · rintro ⟨n, m₀, entered, b, m₁, evaluated, _, _, left, rfl, rfl⟩
    cases entered
    exact ⟨m₁, evaluated, left⟩
  · rintro ⟨m₁, evaluated, left⟩
    exact ⟨_, _, rfl, a, m₁, evaluated, (), m', left, rfl, rfl⟩

/-- A thunk yields the value it has, or that of its expression in its own frame. -/
theorem compute_eq_ok {r : ThunkRef} {x : Node → Eval σ Value} {m m' : Machine σ} {v : Value} :
    compute r x m = .ok v m' ↔
      ((m.state.memory.thunk r).phase = .forced v ∧ m' = m) ∨
      ((m.state.memory.thunk r).phase = .pending ∧
        ∃ m₁, x (m.state.memory.thunk r).expression
              { m with state := (m.state.setPhase r .forcing).reenter (m.state.memory.thunk r).home } = .ok v m₁ ∧
          m₁.state.popFault? (m.state.memory.thunk r).home.number = none ∧
          m' = { m₁ with state := m₁.state.dropTop.setPhase r (.forced v) }) := by
  unfold compute pop
  simp only [bind_eq_ok, state_eq_ok]
  constructor
  · rintro ⟨_, _, ⟨rfl, rfl⟩, h⟩
    cases phase : (m.state.memory.thunk r).phase with
    | forced w =>
      simp only [phase, pure_eq_ok] at h
      obtain ⟨rfl, rfl⟩ := h
      exact .inl ⟨rfl, rfl⟩
    | forcing =>
      simp only [phase] at h
      exact absurd h fail_ne_ok
    | pending =>
      simp only [phase, bind_eq_ok, modify_eq_ok, undoing_eq_ok, attempt_eq_ok, pure_eq_ok] at h
      obtain ⟨_, _, rfl, w, m₁, evaluated, _, _, ⟨fine, rfl⟩, _, _, rfl, rfl, rfl⟩ := h
      exact .inr ⟨rfl, m₁, evaluated, fine, rfl⟩
  · rintro (⟨phase, rfl⟩ | ⟨phase, m₁, evaluated, fine, rfl⟩)
    · refine ⟨_, _, ⟨rfl, rfl⟩, ?_⟩
      simp only [phase]
      rfl
    · refine ⟨_, _, ⟨rfl, rfl⟩, ?_⟩
      simp only [phase, bind_eq_ok, modify_eq_ok, undoing_eq_ok, attempt_eq_ok, pure_eq_ok]
      exact ⟨(), _, rfl, v, m₁, evaluated, (), _, ⟨fine, rfl⟩, (), _, rfl, rfl, rfl⟩

/-! ## Programs -/

/-- The state that is left when a run has a result. -/
def settle : Except Interrupt Value → State → State
  | .error (.error e), s => s.recover e
  | _, s => s

theorem execute_eq (ctx : Context σ) (fuel : Nat) (p : Program) (m : Machine σ) :
    execute ctx fuel p m =
      let (result, m') := runOn (program ctx (visitor ctx fuel) p) { m with state := m.state.beginEvaluation }
      (result, { m' with state := settle result m'.state }) := by
  unfold execute
  rcases runOn (program ctx (visitor ctx fuel) p) _ with ⟨result, m'⟩
  cases result with
  | ok v => rfl
  | error i => cases i <;> rfl

end Eval

end MiniC
