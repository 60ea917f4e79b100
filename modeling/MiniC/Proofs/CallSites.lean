import MiniC.Proofs.Balance
import MiniC.Proofs.Matching
import MiniC.Proofs.Replay

/-!
# Where calls are made

A function is called by the visit of a call expression, as the last thing before that visit
is over (`Log.Sited`). So a point of a log that lies in more calls than its start has a call
expression that made the innermost one, and when that call returns the next event is the exit
of this visit (`Log.Sited.caller`).
-/

namespace MiniC

/-! ## Sited logs -/

/-- One state is in one more call than another, from which it was made. -/
def State.Calls (s t : State) : Prop := ∃ function frame, t.calls = ⟨function, s.top.number, frame⟩ :: s.calls

theorem State.calls_suffix {s t : State} {n : NodeSummary} (calls : t.calls = s.calls ∨ n.label = .callExpression ∧ s.Calls t) :
    s.calls <:+ t.calls := by
  rcases calls with same | ⟨-, function, frame, made⟩
  · rw [same]
  · rw [made]
    exact List.suffix_cons _ _

/-- What evaluations announce from a state, to their end or as far as they come. Between the
    events of a node are those of its parts, and then, if it is a call, those of the body of a
    function. Frames and thunks change the chain and not the calls. -/
inductive Log.Sited : (ended : Bool) → State → Log → Prop
  | nil {ended : Bool} {s : State} : Sited ended s []
  | append {ended : Bool} {s : State} {log more : Log} (first : Sited true s log) (second : Sited ended s more) :
      Sited ended s (log ++ more)
  | within {ended : Bool} {s t : State} {log : Log} (same : t.calls = s.calls) (inner : Sited ended t log) :
      Sited ended s log
  | visit {s t u v : State} {parts body : Log} (n : NodeSummary) (entered : s.SameControl u) (first : Sited true u parts)
      (last : Sited true t body) (calls : t.calls = u.calls ∨ n.label = .callExpression ∧ u.Calls t) (left : u.SameControl v) :
      Sited true s ((.enter n, u) :: (parts ++ body ++ [(.exit n, v)]))
  | begun {s t u : State} {parts body : Log} (n : NodeSummary) (entered : s.SameControl u) (first : Sited true u parts)
      (last : Sited false t body) (calls : t.calls = u.calls ∨ n.label = .callExpression ∧ u.Calls t) :
      Sited false s ((.enter n, u) :: (parts ++ body))

namespace Log.Sited
variable {ended : Bool} {s : State} {log : Log}

theorem unfinished (h : Sited true s log) : Sited ended s log := by simpa using h.append .nil

theorem balanced (h : Sited true s log) : log.Balanced := by
  generalize whole : true = ended at h
  induction h with
  | nil => exact .nil
  | append first second ih ih' => exact (ih rfl).append (ih' whole)
  | within same inner ih => exact ih whole
  | visit n entered first last calls left ih ih' => exact .visit rfl rfl ((ih rfl).append (ih' rfl)) .nil
  | begun => cases whole

/-- No event has fewer calls than there are at the start. -/
theorem calls_suffix (h : Sited ended s log) : ∀ entry ∈ log, s.calls <:+ entry.2.calls := by
  induction h with
  | nil => exact List.forall_mem_nil _
  | append first second ih ih' => exact List.forall_mem_append.mpr ⟨ih, ih'⟩
  | within same inner ih => rwa [same] at ih
  | visit n entered first last calls left ih ih' =>
    have body := fun entry member => (State.calls_suffix calls).trans (ih' entry member)
    rw [← entered.2]
    exact Log.forall_around.mpr ⟨List.suffix_rfl, List.forall_mem_append.mpr ⟨ih, body⟩, left.2 ▸ List.suffix_rfl⟩
  | begun n entered first last calls ih ih' =>
    have body := fun entry member => (State.calls_suffix calls).trans (ih' entry member)
    rw [← entered.2]
    exact List.forall_mem_cons.mpr ⟨List.suffix_rfl, List.forall_mem_append.mpr ⟨ih, body⟩⟩

end Log.Sited

/-! ## Callers -/

/-- The visit of a call expression that made the innermost call at a point of a log: it was
    entered with one call less, in the frame that the call goes back to. What has happened
    `since` are whole visits, those of its parts, and then events inside the call. -/
structure Log.CallSite (before : Log) (u : State) (n : NodeSummary) (w : State) (since : Log) : Prop where
  entered : ∃ earlier, before = earlier ++ (.enter n, w) :: since
  label : n.label = .callExpression
  made : w.Calls u
  inside : ∃ parts body, since = parts ++ body ∧ parts.Balanced ∧ ∀ entry ∈ body, u.calls <:+ entry.2.calls

/-- The visit that made the innermost call of a point is left later, in the state of control in
    which it was entered, and until then there are no fewer calls. -/
def Log.Returns (n : NodeSummary) (w : State) (since : Log) (e : Event) (u : State) (after : Log) : Prop :=
  ∃ inner v rest, (since ++ (e, u) :: after).Leaves (since ++ (e, u) :: inner) (.exit n) v rest ∧
    w.SameControl v ∧ ∀ entry ∈ inner, u.calls <:+ entry.2.calls

namespace Log

theorem CallSite.later {before : Log} {u w : State} {n : NodeSummary} {since : Log} (h : before.CallSite u n w since)
    (earlier : Log) : CallSite (earlier ++ before) u n w since := by
  obtain ⟨⟨first, rfl⟩, label, made, inside⟩ := h
  exact ⟨⟨earlier ++ first, by simp⟩, label, made, inside⟩

theorem Returns.onward {n : NodeSummary} {u w : State} {e : Event} {since after : Log} (h : Returns n w since e u after)
    (more : Log) : Returns n w since e u (after ++ more) := by
  obtain ⟨inner, v, rest, ⟨split, balanced, exits⟩, same, within⟩ := h
  refine ⟨inner, v, rest ++ more, ⟨?_, balanced, exits⟩, same, within⟩
  rw [← List.cons_append, ← List.append_assoc, split, List.append_assoc, List.cons_append]

namespace Sited
variable {ended : Bool} {s t u : State} {e : Event} {log before after : Log}

/-- In the body of a function there are no more calls than there were when it began, or there
    are more than before. -/
theorem calls_or_deeper (h : Sited ended t log) (member : (e, u) ∈ log) : u.calls = t.calls ∨ t.callDepth < u.callDepth := by
  have suffix := h.calls_suffix _ member
  rcases Nat.eq_or_lt_of_le suffix.length_le with same | deeper
  · exact .inl (suffix.eq_of_length same).symm
  · exact .inr deeper

/-- A point between the events of a node, in more calls than there are outside: the visit of a
    part or of the body has made the innermost call, or that of the node itself has. -/
theorem caller_inside {parts body : Log} {n : NodeSummary}
    (calls : t.calls = s.calls ∨ n.label = .callExpression ∧ s.Calls t) (first : parts.Balanced) (last : Sited ended t body)
    (ofParts : ∀ before after, parts = before ++ (e, u) :: after →
      ∃ m w since, CallSite before u m w since ∧ Returns m w since e u after)
    (ofBody : ∀ before after, body = before ++ (e, u) :: after → t.callDepth < u.callDepth →
      ∃ m w since, CallSite before u m w since ∧
        (Returns m w since e u after ∨ ended = false ∧ ∀ entry ∈ after, u.calls <:+ entry.2.calls))
    (split : parts ++ body = before ++ (e, u) :: after) (inside : s.callDepth < u.callDepth) :
    ∃ m w since, CallSite ((.enter n, s) :: before) u m w since ∧
      (Returns m w since e u after ∨ ended = false ∧ (∀ entry ∈ after, u.calls <:+ entry.2.calls) ∨
        (m = n ∧ w = s ∧ since = before) ∧ ∀ entry ∈ after, u.calls <:+ entry.2.calls) := by
  rcases append_eq_split split with ⟨after', here, rfl⟩ | ⟨before', rfl, here⟩
  · obtain ⟨m, w, since, site, returns⟩ := ofParts _ _ here
    exact ⟨m, w, since, site.later [(.enter n, s)], .inl (returns.onward body)⟩
  · rcases last.calls_or_deeper (here ▸ by simp : (e, u) ∈ body) with same | deeper
    · rcases calls with outside | ⟨label, function, frame, made⟩
      · rw [State.callDepth, State.callDepth, same, outside] at inside
        exact absurd inside (Nat.lt_irrefl _)
      · have within (entry : Event × State) (member : entry ∈ body) : u.calls <:+ entry.2.calls := by
          rw [same]
          exact last.calls_suffix entry member
        subst here
        refine ⟨n, s, parts ++ before', ⟨⟨[], rfl⟩, label, ⟨function, frame, same.trans made⟩, ?_⟩,
          .inr (.inr ⟨⟨rfl, rfl, rfl⟩, fun entry member => within entry (by simp [member])⟩)⟩
        exact ⟨parts, before', rfl, first, fun entry member => within entry (by simp [member])⟩
    · obtain ⟨m, w, since, site, returns | ended⟩ := ofBody _ _ here deeper
      · exact ⟨m, w, since, site.later ((.enter n, s) :: parts), .inl returns⟩
      · exact ⟨m, w, since, site.later ((.enter n, s) :: parts), .inr (.inl ended)⟩

/-- A point in more calls than the start has a call expression that made the innermost one.
    Its visit is left when the call has returned, unless the log ends before. -/
theorem caller (h : Sited ended s log) (split : log = before ++ (e, u) :: after) (inside : s.callDepth < u.callDepth) :
    ∃ n w since, CallSite before u n w since ∧
      (Returns n w since e u after ∨ ended = false ∧ ∀ entry ∈ after, u.calls <:+ entry.2.calls) := by
  induction h generalizing before after with
  | nil => simp at split
  | @append ended s log more first second ih ih' =>
    rcases append_eq_split split with ⟨after', here, rfl⟩ | ⟨before', rfl, here⟩
    · obtain ⟨n, w, since, site, returns | ⟨unended, -⟩⟩ := ih here inside
      · exact ⟨n, w, since, site, .inl (returns.onward more)⟩
      · cases unended
    · obtain ⟨n, w, since, site, found⟩ := ih' here inside
      exact ⟨n, w, since, site.later log, found⟩
  | within same inner ih =>
    refine ih split ?_
    rwa [State.callDepth, same]
  | @visit s t u₀ v parts body n entered first last calls left ih ih' =>
    have inside : u₀.callDepth < u.callDepth := by rwa [State.callDepth, entered.2]
    have whole : (parts ++ body).Balanced := first.balanced.append last.balanced
    rcases cons_eq_split split with ⟨-, point, -⟩ | ⟨before, rfl, rest⟩
    · cases point
      exact absurd inside (Nat.lt_irrefl _)
    rcases append_eq_split rest with ⟨after, here, rfl⟩ | ⟨before', rfl, here⟩
    · obtain ⟨m, w, since, site, found⟩ := caller_inside calls first.balanced last
        (fun before after here => by simpa using ih here inside) (fun before after here => ih' here) here inside
      refine ⟨m, w, since, site, .inl ?_⟩
      rcases found with returns | ⟨unended, -⟩ | ⟨⟨rfl, rfl, rfl⟩, within⟩
      · exact returns.onward _
      · cases unended
      · exact ⟨after, v, [], ⟨by simp, here ▸ whole, rfl⟩, left, within⟩
    · rcases cons_eq_split here with ⟨-, point, -⟩ | ⟨before, -, none⟩
      · cases point
        exact absurd inside (by rw [State.callDepth, State.callDepth, left.2]; exact Nat.lt_irrefl _)
      · simp at none
  | @begun s t u₀ parts body n entered first last calls ih ih' =>
    have inside : u₀.callDepth < u.callDepth := by rwa [State.callDepth, entered.2]
    rcases cons_eq_split split with ⟨-, point, -⟩ | ⟨before, rfl, here⟩
    · cases point
      exact absurd inside (Nat.lt_irrefl _)
    obtain ⟨m, w, since, site, found⟩ := caller_inside calls first.balanced last
      (fun before after here => by simpa using ih here inside) (fun before after here => ih' here) here inside
    refine ⟨m, w, since, site, ?_⟩
    rcases found with returns | unended | ⟨-, within⟩
    · exact .inl returns
    · exact .inr unended
    · exact .inr ⟨rfl, within⟩

end Sited

/-- What is announced between the events of a node, which may be one that calls. -/
def Inside (calls ended : Bool) (s : State) (log : Log) : Prop :=
  ∃ parts body t, log = parts ++ body ∧ Sited true s parts ∧ Sited ended t body ∧
    (t.calls = s.calls ∨ calls = true ∧ s.Calls t)

namespace Inside
variable {calls ended : Bool} {s s' : State} {log more : Log}

theorem of_sited (h : Sited ended s log) : Inside calls ended s log := ⟨[], log, s, rfl, .nil, h, .inl rfl⟩

theorem sited (h : Inside false ended s log) : Sited ended s log := by
  obtain ⟨parts, body, t, rfl, first, last, same | ⟨never, -⟩⟩ := h
  · exact .append first (.within same last)
  · cases never

theorem after (h : Inside calls ended s' more) (first : Sited true s log) (same : s.SameControl s') :
    Inside calls ended s (log ++ more) := by
  obtain ⟨parts, body, t, rfl, before, last, how⟩ := h
  obtain ⟨stack, calls⟩ := State.sameControl_iff.mp same
  refine ⟨log ++ parts, body, t, by simp, first.append (.within calls before), last, ?_⟩
  rw [State.Calls, State.top, stack, calls] at how
  exact how

end Inside
end Log

/-! ## Evaluations -/

namespace Eval
variable {α β : Type}

/-- An evaluation announces what can be announced between the events of a node, which may be
    one that calls. -/
structure Placed (calls : Bool) (x : Eval Log α) : Prop where
  balanced : Balanced x
  log (m : Machine Log) : ∃ log : Log, (runOn x m).2.watch = log.reverse ++ m.watch ∧
    log.Inside calls (runOn x m).1.isOk m.state

namespace Placed
variable {calls : Bool}

/-- An evaluation that announces nothing. -/
theorem quiet {x : Eval Log α} (balanced : Balanced x) (watch : ∀ m, (runOn x m).2.watch = m.watch) : Placed calls x :=
  ⟨balanced, fun m => ⟨[], watch m, .of_sited .nil⟩⟩

theorem bind {x : Eval Log α} {f : α → Eval Log β} (first : Placed false x) (second : ∀ a, Placed calls (f a)) :
    Placed calls (x >>= f) := by
  refine ⟨.bind first.balanced fun a => (second a).balanced, fun m => ?_⟩
  obtain ⟨log, watched, inside⟩ := first.log m
  rw [runOn_bind]
  rcases ran : runOn x m with ⟨⟨i⟩ | ⟨a⟩, m₁⟩
  · rw [ran] at watched inside
    exact ⟨log, watched, .of_sited inside.sited⟩
  · rw [ran] at watched inside
    have control := first.balanced m a m₁ (runOn_eq_ok.mp ran)
    obtain ⟨more, watched', inside'⟩ := (second a).log m₁
    exact ⟨log ++ more, by rw [watched', watched]; simp, inside'.after inside.sited control⟩

/-- What an evaluation yields does not matter. -/
theorem yielding {x : Eval Log α} (h : Placed calls x) (f : α → β) : Placed calls (do return f (← x)) := by
  refine ⟨.bind h.balanced fun a => .pure (f a), fun m => ?_⟩
  obtain ⟨log, watched, inside⟩ := h.log m
  rw [runOn_bind]
  generalize runOn x m = outcome at watched inside ⊢
  obtain ⟨⟨i⟩ | ⟨a⟩, m₁⟩ := outcome
  · exact ⟨log, watched, inside⟩
  · exact ⟨log, watched, inside⟩

theorem attempt {fault? : State → Option EvalError} {change : State → State} (h : ∀ s : State, s.SameControl (change s)) :
    Placed calls (Eval.attempt fault? change) := by
  refine quiet (.attempt h) fun m => ?_
  rw [runOn_attempt]
  cases fault? m.state with
  | some e => rfl
  | none => rfl

theorem inFrame {x : Eval Log α} (tag : FrameTag) (h : Placed false x) : Placed false (Eval.inFrame tag x) := by
  refine ⟨.inFrame tag h.balanced, fun m => ?_⟩
  obtain ⟨log, watched, inside⟩ := h.log { m with state := (m.state.push tag).2 }
  have sited {ended : Bool} (h : Log.Sited ended (m.state.push tag).2 log) : log.Inside false ended m.state :=
    .of_sited (.within (t := (m.state.push tag).2) rfl h)
  rw [runOn_inFrame]
  generalize runOn x { m with state := (m.state.push tag).2 } = outcome at watched inside ⊢
  obtain ⟨⟨i⟩ | ⟨a⟩, m₁⟩ := outcome
  · exact ⟨log, watched, sited inside.sited⟩
  · dsimp only
    cases m₁.state.popFault? m.state.frames.size with
    | some e => exact ⟨log, watched, sited (Log.Sited.unfinished inside.sited)⟩
    | none => exact ⟨log, watched, sited inside.sited⟩

/-- A call announces what the body of its function does. -/
theorem inCall {x : Eval Log α} (limit : Nat) (name : String) (span : Option Span) (h : Placed false x) :
    Placed true (do Eval.checkDepth limit span; Eval.inCall name x) := by
  refine ⟨.bind (.checkDepth limit span) fun _ => .inCall name h.balanced, fun m => ?_⟩
  obtain ⟨log, watched, inside⟩ := h.log { m with state := m.state.calling name }
  have sited {ended : Bool} (h : Log.Sited ended (m.state.calling name) log) : log.Inside true ended m.state :=
    ⟨[], log, _, rfl, .nil, h, .inr ⟨rfl, name, _, rfl⟩⟩
  rw [runOn_bind, runOn_checkDepth]
  by_cases deep : limit ≤ m.state.callDepth
  · rw [if_pos deep]
    exact ⟨[], rfl, .of_sited .nil⟩
  rw [if_neg deep]
  dsimp only
  rw [runOn_inCall]
  rcases ran : runOn x { m with state := m.state.calling name } with ⟨⟨i⟩ | ⟨a⟩, m₁⟩
  · rw [ran] at watched inside
    erw [ran]
    exact ⟨log, watched, sited inside.sited⟩
  · rw [ran] at watched inside
    obtain ⟨stack, calls⟩ := State.sameControl_iff.mp (h.balanced _ a m₁ (runOn_eq_ok.mp ran))
    have left := runOn_leaveCall_of_control stack (rfl : m.state.stack.headD .global = m.state.top) calls
    erw [ran]
    simp only [left]
    exact ⟨log, watched, sited inside.sited⟩

theorem compute {x : Node → Eval Log Value} (r : ThunkRef) (h : ∀ n, Placed false (x n)) :
    Placed false (Eval.compute r x) := by
  refine ⟨.compute r fun n => (h n).balanced, fun m => ?_⟩
  rw [runOn_compute]
  dsimp only
  cases phase : (m.state.memory.thunk r).phase with
  | forced v => exact ⟨[], rfl, .of_sited .nil⟩
  | forcing => exact ⟨[], rfl, .of_sited .nil⟩
  | pending =>
    obtain ⟨log, watched, inside⟩ := (h (m.state.memory.thunk r).expression).log { m with state := m.state.computing r }
    have sited {ended : Bool} (h : Log.Sited ended (m.state.computing r) log) : log.Inside false ended m.state :=
      .of_sited (.within (t := m.state.computing r) rfl h)
    change ∃ log : Log, _ ∧ log.Inside false _ m.state
    unfold State.computing at watched inside
    dsimp only
    generalize runOn (x (m.state.memory.thunk r).expression) _ = outcome at watched inside ⊢
    obtain ⟨⟨i⟩ | ⟨v⟩, m₁⟩ := outcome
    · exact ⟨log, watched, sited inside.sited⟩
    · dsimp only
      cases m₁.state.popFault? (m.state.memory.thunk r).home.number with
      | some e => exact ⟨log, watched, sited (Log.Sited.unfinished inside.sited)⟩
      | none => exact ⟨log, watched, sited inside.sited⟩

/-- A node is visited with its parts and with the body that it calls, if it is a call. -/
theorem bracket {settings : Settings} {x : Eval Log α} (n : NodeSummary) (h : Placed (n.label == .callExpression) x) :
    Placed false (do
      Eval.enter ⟨settings, .logging⟩ n
      let a ← x
      Eval.exit ⟨settings, .logging⟩ n
      Pure.pure a) := by
  refine ⟨.bind (.enter _ n) fun _ => .bind h.balanced fun a => .bind (.exit _ n) fun _ => .pure a, fun ⟨s, w⟩ => ?_⟩
  by_cases may : s.MayStep settings
  · obtain ⟨_, watched, parts, body, t, rfl, first, last, how⟩ := h.log ⟨s.entering n, (.enter n, s.entering n) :: w⟩
    rw [beq_iff_eq] at how
    have entered : s.SameControl (s.entering n) := ⟨rfl, rfl⟩
    rw [runOn_bind, Traces.runOn_entering n may]
    show ∃ log : Log, (runOn (x >>= _) ⟨s.entering n, (.enter n, s.entering n) :: w⟩).2.watch = _ ∧
      log.Inside false (runOn (x >>= _) ⟨s.entering n, (.enter n, s.entering n) :: w⟩).1.isOk s
    rw [runOn_bind]
    rcases ran : runOn x ⟨s.entering n, (.enter n, s.entering n) :: w⟩ with ⟨⟨i⟩ | ⟨a⟩, m₁⟩
    · rw [ran] at watched last
      exact ⟨_, by rw [watched]; simp, .of_sited (.begun n entered first last how)⟩
    · rw [ran] at watched last
      have left : (s.entering n).SameControl (m₁.state.leaving n) := h.balanced _ a m₁ (runOn_eq_ok.mp ran)
      refine ⟨_, ?_, .of_sited (.visit n entered first last how left)⟩
      show (.exit n, m₁.state.leaving n) :: m₁.watch = _
      rw [watched]
      simp
  · obtain ⟨limit, -, -, refused⟩ := Traces.runOn_refused ⟨settings, .logging⟩ n may w
    rw [runOn_bind, refused]
    exact ⟨[], rfl, .of_sited .nil⟩

theorem forget {x : Eval Log α} (h : Placed false x) : Placed calls x :=
  ⟨h.balanced, fun m => have ⟨log, watched, inside⟩ := h.log m; ⟨log, watched, .of_sited inside.sited⟩⟩

theorem stop (i : Interrupt) : Placed calls (throw i : Eval Log α) := quiet (.stop i) fun _ => rfl

theorem pure (a : α) : Placed calls (pure a) := quiet (.pure a) fun _ => rfl

theorem state : Placed calls Eval.state := quiet .state fun _ => rfl

theorem modify {f : State → State} (h : ∀ s : State, s.SameControl (f s)) : Placed calls (Eval.modify f) :=
  quiet (.modify h) fun _ => rfl

theorem allocate (f : Memory → α × Memory) : Placed calls (Eval.allocate f) := quiet (.allocate f) fun _ => rfl

/-- What an evaluation goes by that may call nothing itself. -/
def uncalling (settings : Settings) : Context Log := ⟨{ settings with maxCallDepth := 0 }, .logging⟩

/-- Every construct is placed that makes no call itself. -/
theorem lockstep (settings : Settings) :
    Lockstep (uncalling settings) (uncalling settings) (· = ·) (fun x _ => Placed false x) fun x _ => Placed false x where
  strategy := rfl
  pure := pure
  bind := bind
  fail e := stop (.error e)
  stray _ _ := bind state fun _ => stop _
  read h := bind state fun s => h s s (.refl s)
  sameValues v w := bind state fun s => by
    cases s.memory.same? v w with
    | none => exact stop _
    | some same => exact pure same
  newArray _ := allocate _
  newClosure _ _ _ := allocate _
  delay _ := bind state fun _ => bind (allocate _) fun _ => pure _
  setElement _ _ _ _ := modify fun _ => ⟨rfl, rfl⟩
  write _ := modify fun _ => ⟨rfl, rfl⟩
  declare _ _ _ _ := attempt fun _ => State.sameControl_iff.mpr ⟨by simp, by simp⟩
  declareGlobal _ _ _ _ := attempt fun _ => State.sameControl_iff.mpr ⟨by simp, by simp⟩
  redefine _ _ _ := modify fun _ => State.sameControl_iff.mpr ⟨by simp, by simp⟩
  assign _ _ _ := attempt fun _ => State.sameControl_iff.mpr ⟨by simp, by simp⟩
  inFrame {_ _ _ tag} _ := inFrame tag
  inCall name span h := by
    refine quiet (.bind (.checkDepth _ span) fun _ => .inCall name h.balanced) fun m => ?_
    rw [runOn_bind, runOn_checkDepth, if_pos (show (uncalling settings).settings.maxCallDepth ≤ _ from Nat.zero_le _)]
  compute := compute
  bracket _ h := bracket _ h.forget
  after := bind
  quit := stop _
  forget := id
  fuels_zero h := .inl h.symm
  fuels_succ h := ⟨_, h.symm, rfl⟩

/-- A call is made when the arguments have been evaluated. -/
theorem call {inner : Visitor Log}
    (V : Congruence.Visitors (fun x _ => Placed false x) (fun x _ => Placed false x) inner inner)
    (limit : Nat) (callee : Node) (arguments : List Node) (span : Option Span) :
    Placed true (inner.call limit callee arguments span) := by
  have L := (lockstep {}).toCongruence
  have closure (name : String) (kind : Kind) (c : Closure) (values : List Value) :
      Placed true (inner.callClosure limit name c kind values span) := by
    have called := inCall limit name span (L.callBody V c kind values span)
    unfold Visitor.callClosure
    split
    · exact bind (stop _) fun _ => called
    · exact called
  unfold Visitor.call
  split
  · refine bind state fun s => ?_
    split
    · exact stop _
    · exact bind (L.actuals (L.operands V) arguments) fun values => closure _ _ _ values
    · exact bind (L.actuals (L.operands V) arguments) fun values => (L.callBuiltin _ values span).forget
    · exact stop _
  · exact stop _

/-- Only calls ask how deep calls may be. -/
theorem byForm_uncalling (settings : Settings) (inner : Visitor Log) (n : Node) (tag : FrameTag)
    (other : n.label ≠ .callExpression) :
    Eval.byForm (uncalling settings).settings inner n tag = Eval.byForm settings inner n tag := by
  obtain ⟨form, loc⟩ := n
  cases form with
  | call callee arguments => exact absurd rfl other
  | returnValue argument => cases argument <;> rfl
  | literal v => cases v <;> rfl
  | member object property computed => cases computed <;> rfl
  | _ => rfl

/-- The evaluation of a node makes no call itself, unless the node is one. -/
theorem byForm (settings : Settings) {inner : Visitor Log}
    (V : Congruence.Visitors (fun x _ => Placed false x) (fun x _ => Placed false x) inner inner) (n : Node) (tag : FrameTag) :
    Placed (n.label == .callExpression) (Eval.byForm settings inner n tag) := by
  by_cases called : n.label = .callExpression
  · obtain ⟨form, loc⟩ := n
    cases form with
    | call callee arguments =>
      exact (call V settings.maxCallDepth callee arguments loc).yielding Completion.normal
    | _ => cases called
  · rw [← byForm_uncalling settings inner n tag called]
    exact ((lockstep settings).byForm V n trivial).forget

/-- Every visit is placed, and makes no call outside itself. -/
theorem visit (settings : Settings) : ∀ (fuel : Nat) (n : Node) (tag : FrameTag),
    Placed false (Eval.visit ⟨settings, .logging⟩ fuel n tag)
  | 0, _, _ => stop _
  | fuel + 1, n, tag => bracket n.summary
    (byForm settings ((lockstep settings).visitorsOf (fun n tag _ => visit settings fuel n tag) rfl) n tag)

/-- The run of a program is placed. -/
theorem program (settings : Settings) (fuel : Nat) (p : Program) :
    Placed false (Eval.program ⟨settings, .logging⟩ (visitor ⟨settings, .logging⟩ fuel) p) := by
  have V : Congruence.Visitors (fun x _ => Placed false x) (fun x _ => Placed false x)
      (visitor ⟨settings, .logging⟩ fuel) (visitor ⟨settings, .logging⟩ fuel) :=
    (lockstep settings).visitorsOf (fun n tag _ => visit settings fuel n tag) rfl
  rw [program_eq]
  exact bracket p.summary ((lockstep settings).toCongruence.inside V p rfl).forget

end Placed
end Eval
end MiniC
