import MiniC.Stepper
import MiniC.Proofs.Replay

/-!
# The cursor of a stepper

A stepper runs its program again for every command. Since an observer changes nothing
but where a run is halted, and since steps are counted one by one, the stepper does no
more than move a cursor over the recording of one run that nobody halts (`stepper_cursor`).
-/

namespace MiniC

/-! ## Recordings -/

/-- The snapshots of a run: one for each event, and one of the end. -/
structure Recording where
  points : List Snapshot
  last : Snapshot

/-- The recording of a program, by an observer that never halts. -/
def Program.recording (p : Program) (settings : Settings) : Recording :=
  let session := { Session.start settings [] with observer := some (.recording fun _ s => Snapshot.capture s none) }
  let (result, session) := session.execute p
  ⟨session.machine.watch.reverse, .capture session.state (outcome? result)⟩

/-- Whether the run of a program ends. -/
def Program.Ends (p : Program) (settings : Settings) : Prop := (outcome? (p.run settings).1).isSome

/-- Where a cursor stands: before the start, at the point with a step number, or at
    the end. -/
inductive Position where
  | start
  | point (step : Nat)
  | finish
deriving DecidableEq, Repr

/-- What a stepper can be told to do. -/
inductive Command where
  | step
  | stepOver
  | stepOut
  | runToLine (line : UInt32)
  | runToEnd
  | seek (step : Nat)
deriving DecidableEq, Repr

/-- The request that a command makes. -/
def Command.request : Command → StepRequest
  | step => .into
  | stepOver => .over
  | stepOut => .out
  | runToLine n => .line n
  | runToEnd => .last
  | seek n => .step n

/-- Obeys a command. -/
def Stepper.perform (s : Stepper) : Command → Stepper
  | .seek n => s.seek n
  | c => s.resume c.request

/-- Whether a command that resumes at one snapshot stops at another one. -/
def Command.accepts (c : Command) (start found : Snapshot) : Bool :=
  match c with
  | .step => true
  | .stepOver => found.depth ≤ start.depth
  | .stepOut => found.callDepth < start.callDepth
  | .runToLine n => found.event.any fun e => e.isEnter && e.node.loc.map (·.line) == some n
  | .runToEnd | .seek _ => false

namespace Recording

/-- The snapshot at a position. -/
def snapshot (r : Recording) : Position → Snapshot
  | .start => {}
  | .point i => r.points.getD (i - 1) r.last
  | .finish => r.last

/-- The first point after a step at which a command stops, or else the end. -/
def next (r : Recording) (c : Command) (start : Snapshot) (step : Nat) : Position :=
  match (r.points.drop step).findIdx? (c.accepts start) with
  | some k => .point (step + k + 1)
  | none => .finish

/-- Where a command moves the cursor. -/
def move (r : Recording) (pos : Position) : Command → Position
  | .seek n => if n = 0 then .start else if n ≤ r.points.length then .point n else .finish
  | c =>
    match pos with
    | .start => r.next c {} 0
    | .point i => r.next c (r.snapshot (.point i)) i
    | .finish => .finish

/-- A recording as runs leave them that end: the points are those of a run that goes
    on, with the step numbers from one on, and the last snapshot is finished. -/
structure Proper (r : Recording) : Prop where
  steps : r.points.map (·.step) = List.range' 1 r.points.length
  running : ∀ t ∈ r.points, t.finished = false
  finished : r.last.finished = true

end Recording

/-! ## Snapshots of halted runs -/

/-- A thunk shows the same text whether it waits or is being computed. -/
theorem Memory.Released.showWithin? {m m' : Memory} (h : m.Released m') :
    ∀ (fuel : Nat) (v : Value), m'.showWithin? fuel v = m.showWithin? fuel v := by
  intro fuel
  induction fuel with
  | zero => intro v; cases v <;> rfl
  | succ fuel ih =>
    intro v
    cases v with
    | array r => simp only [Memory.showWithin?, Memory.elements, h.arrays, funext ih]
    | lazy r =>
      have memo : (m'.thunk r).memo? = (m.thunk r).memo? := by
        rcases h.thunks r with same | ⟨forcing, same⟩
        · rw [same]
        · simp only [same, Thunk.memo?, forcing]
      simp only [Memory.showWithin?, memo, ih]
    | _ => rfl

theorem State.Frozen.capture {s s' : State} (h : s.Frozen s') : Snapshot.capture s' none = Snapshot.capture s none := by
  have shown : s'.memory.show? = s.memory.show? := by
    funext v
    unfold Memory.show?
    rw [h.memory.showWithin?, h.memory.arrays, h.memory.size]
  have views : s'.frameView = s.frameView := by
    funext r
    unfold State.frameView
    rw [shown, h.rest]
    cases r <;> rfl
  unfold Snapshot.capture
  rw [views, h.rest]
  rfl

/-! ## Runs with and without an end -/

/-- The events of a run that nobody halts, with the states in which they are announced. -/
def Program.log (p : Program) (settings : Settings) : Log :=
  (Eval.execute ⟨settings, .logging⟩ Eval.ampleFuel p ⟨.seeded, []⟩).2.watch.reverse

/-- The recording of a program is made of its log, and a run that is halted has arrived at
    the first entry at which its observer halts. -/
theorem Program.recording_log (p : Program) (settings : Settings) :
    (p.recording settings).points = (p.log settings).map (fun entry => Snapshot.capture entry.2 none) ∧
      (∀ entry ∈ p.log settings, entry.2.lastEvent = some entry.1) ∧
      (p.log settings).map (·.2.steps) = List.range' 1 (p.log settings).length ∧
      (p.recording settings).last.finished = (outcome? (p.run settings).1).isSome ∧
      ∀ halts : Event → State → Bool,
        let (result, session) :=
          { Session.start settings () with observer := some (.haltingAt halts) }.execute p
        Snapshot.capture session.state (outcome? result) =
          match (p.log settings).find? fun entry => halts entry.1 entry.2 with
          | some entry => .capture entry.2 none
          | none => (p.recording settings).last := by
  obtain ⟨⟨result, s, log⟩, orderly, logged, under⟩ :=
    Eval.program_replays settings Eval.ampleFuel p State.seeded.beginEvaluation
  have started : State.seeded.beginEvaluation.steps = 0 := rfl
  have same : p.log settings = log := by
    unfold Program.log
    rw [Eval.execute_eq]
    dsimp only
    rw [logged []]
    simp
  have ran : (p.run settings).1 = result := by
    have silent := under Unit .silent ()
    have nowhere : log.find? (fun _ => false) = none := by simp
    simp only [Eval.Course.EndsUnder, Observer.silent, Observer.follow_haltingAt, nowhere, Option.map_none] at silent
    show (Eval.execute ⟨settings, .silent⟩ Eval.ampleFuel p ⟨.seeded, ()⟩).1 = result
    rw [Eval.execute_eq]
    show (Eval.runOn _ ⟨State.seeded.beginEvaluation, ()⟩).1 = result
    exact congrArg Prod.fst silent
  have recorded : p.recording settings =
      ⟨log.map fun entry => Snapshot.capture entry.2 none, .capture (Eval.settle result s) (outcome? result)⟩ := by
    have recorder := under _ (.recording fun _ s => Snapshot.capture s none) []
    simp only [Eval.Course.EndsUnder, Observer.follow_recording, List.append_nil] at recorder
    have ran : Eval.execute ⟨settings, .recording fun _ s => Snapshot.capture s none⟩ Eval.ampleFuel p ⟨.seeded, []⟩ =
        (result, ⟨Eval.settle result s, (log.map fun entry => Snapshot.capture entry.2 none).reverse⟩) := by
      rw [Eval.execute_eq]
      dsimp only
      rw [recorder]
    unfold recording Session.execute
    dsimp only [Session.context, Session.start, Option.getD_some, Session.state]
    rw [ran]
    simp
  rw [recorded, same, ran]
  refine ⟨rfl, orderly.events, ?_, rfl, fun halts => ?_⟩
  · simpa [started] using orderly.steps
  · have halted := under Unit (.haltingAt halts) ()
    simp only [Eval.Course.EndsUnder, Observer.follow_haltingAt] at halted
    have ran : { Session.start settings () with observer := some (.haltingAt halts) }.execute p =
        let (result, m) := Eval.execute ⟨settings, .haltingAt halts⟩ Eval.ampleFuel p ⟨.seeded, ()⟩
        (result, { Session.start settings () with observer := some (.haltingAt halts), machine := m }) := rfl
    rw [ran, Eval.execute_eq]
    dsimp only
    cases found : log.find? fun entry => halts entry.1 entry.2 with
    | none =>
      simp only [found, Option.map_none] at halted
      rw [halted]
      rfl
    | some entry =>
      simp only [found, Option.map_some] at halted
      obtain ⟨t', frozen, halted⟩ := halted
      rw [halted]
      exact frozen.capture

theorem Program.recording_proper {p : Program} {settings : Settings} (ends : p.Ends settings) :
    (p.recording settings).Proper := by
  obtain ⟨points, -, steps, finished, -⟩ := p.recording_log settings
  refine ⟨?_, ?_, finished.trans ends⟩
  · rw [points, List.map_map, List.length_map]
    exact steps
  · rw [points]
    intro t member
    obtain ⟨entry, -, rfl⟩ := List.mem_map.mp member
    rfl

/-! ## Requests -/

/-- A request that goes on stops where its command does, after the step at which it was made. -/
theorem Command.request_halts (c : Command) (resumes : ∀ n, c ≠ .seek n) (start : Snapshot) {e : Event} {s : State}
    (last : s.lastEvent = some e) :
    c.request.halts start e s =
      (decide (start.step < (Snapshot.capture s none).step) && c.accepts start (.capture s none)) := by
  have depth : (Snapshot.capture s none).depth = e.depth s := by
    unfold Snapshot.depth Snapshot.capture
    rw [last]
    cases e <;> rfl
  have event : (Snapshot.capture s none).event = some e := last
  have calls : (Snapshot.capture s none).callDepth = s.callDepth := rfl
  have step : (Snapshot.capture s none).step = s.steps := rfl
  cases c with
  | seek n => exact absurd rfl (resumes n)
  | step => simp [request, StepRequest.halts, accepts, step]
  | stepOver => simp [request, StepRequest.halts, accepts, step, depth]
  | stepOut => simp [request, StepRequest.halts, accepts, step, calls]
  | runToLine n => simp [request, StepRequest.halts, accepts, step, event, Bool.and_assoc]
  | runToEnd => simp [request, StepRequest.halts, accepts]

/-- A request leads to the first point at which it halts, or else to the end. -/
theorem Stepper.replay_current (s : Stepper) (request : StepRequest)
    (stops : Snapshot → Bool)
    (same : ∀ e t, t.lastEvent = some e → request.halts s.current e t = stops (.capture t none)) :
    (s.replay request).current =
      ((s.program.recording s.settings).points.find? stops).getD (s.program.recording s.settings).last := by
  obtain ⟨points, events, -, -, arrives⟩ := s.program.recording_log s.settings
  have onLog : (s.program.log s.settings).find? (fun entry => request.halts s.current entry.1 entry.2) =
      (s.program.log s.settings).find? (stops ∘ fun entry => .capture entry.2 none) := by
    rw [← List.head?_filter, ← List.head?_filter]
    exact congrArg List.head? (List.filter_congr fun entry member => same _ _ (events entry member))
  rw [points, List.find?_map, ← onLog]
  refine (arrives (request.halts s.current)).trans ?_
  cases (s.program.log s.settings).find? fun entry => request.halts s.current entry.1 entry.2 with
  | none => rfl
  | some entry => rfl

namespace Recording

theorem Proper.numbered {r : Recording} (proper : r.Proper) {i : Nat} {t : Snapshot}
    (found : r.points[i]? = some t) : t.step = i + 1 := by
  have inside := (List.getElem?_eq_some_iff.mp found).1
  have mapped : (r.points.map (·.step))[i]? = some t.step := by rw [List.getElem?_map, found]; rfl
  rw [proper.steps, List.getElem?_range' inside] at mapped
  have := Option.some.inj mapped
  omega

/-- The points after a step are those that are left when so many are taken away. -/
theorem Proper.find?_after {r : Recording} (proper : r.Proper) (step : Nat) (q : Snapshot → Bool) :
    r.points.find? (fun t => decide (step < t.step) && q t) = (r.points.drop step).find? q := by
  have before : (r.points.take step).find? (fun t => decide (step < t.step) && q t) = none := by
    rw [List.find?_eq_none]
    intro t member
    obtain ⟨i, h⟩ := List.mem_iff_getElem?.mp member
    rw [List.getElem?_take] at h
    split at h
    · rename_i inside
      have := proper.numbered h
      simp only [Bool.and_eq_true, decide_eq_true_eq, not_and]
      omega
    · cases h
  have after : (r.points.drop step).find? (fun t => decide (step < t.step) && q t) =
      (r.points.drop step).find? q := by
    rw [← List.head?_filter, ← List.head?_filter]
    refine congrArg List.head? (List.filter_congr fun t member => ?_)
    obtain ⟨i, h⟩ := List.mem_iff_getElem?.mp member
    rw [List.getElem?_drop] at h
    have := proper.numbered h
    have late : step < t.step := by omega
    simp [late]
  calc r.points.find? (fun t => decide (step < t.step) && q t)
      = (r.points.take step ++ r.points.drop step).find? (fun t => decide (step < t.step) && q t) := by
        rw [List.take_append_drop]
    _ = (r.points.drop step).find? q := by rw [List.find?_append, before, Option.none_or, after]

/-- The next point is the one that is found first. -/
theorem snapshot_next (r : Recording) (c : Command) (start : Snapshot) (step : Nat) :
    r.snapshot (r.next c start step) = ((r.points.drop step).find? (c.accepts start)).getD r.last := by
  unfold next
  rw [List.find?_eq_bind_findIdx?_getElem?]
  cases found : (r.points.drop step).findIdx? (c.accepts start) with
  | none => rfl
  | some k =>
    show r.points.getD (step + k) r.last = _
    rw [List.getD_eq_getElem?_getD, Option.bind_some, List.getElem?_drop]

/-- Where a cursor can stand on a recording. -/
def Holds (r : Recording) : Position → Prop
  | .point i => 1 ≤ i ∧ i ≤ r.points.length
  | _ => True

theorem holds_next (r : Recording) (c : Command) (start : Snapshot) (step : Nat) :
    r.Holds (r.next c start step) := by
  unfold next
  split
  · rename_i k found
    have inside := (List.findIdx?_eq_some_iff_findIdx_eq.mp found).1
    rw [List.length_drop] at inside
    exact ⟨by omega, by omega⟩
  · trivial

theorem holds_move (r : Recording) (pos : Position) (c : Command) : r.Holds (r.move pos c) := by
  unfold move
  split
  · split
    · trivial
    · rename_i positive
      split
      · rename_i inside
        exact ⟨Nat.pos_of_ne_zero positive, inside⟩
      · trivial
  · split
    · exact r.holds_next _ _ _
    · exact r.holds_next _ _ _
    · trivial

theorem point_mem {r : Recording} {i : Nat} (inside : r.Holds (.point i)) :
    ∃ t, r.points[i - 1]? = some t ∧ r.snapshot (.point i) = t := by
  have bound : i - 1 < r.points.length := by have := inside.1; have := inside.2; omega
  refine ⟨r.points[i - 1], List.getElem?_eq_getElem bound, ?_⟩
  show r.points.getD (i - 1) r.last = _
  rw [List.getD_eq_getElem?_getD, List.getElem?_eq_getElem bound, Option.getD_some]

theorem Proper.step_point {r : Recording} (proper : r.Proper) {i : Nat} (inside : r.Holds (.point i)) :
    (r.snapshot (.point i)).step = i ∧ (r.snapshot (.point i)).finished = false := by
  obtain ⟨t, found, same⟩ := point_mem inside
  have positive := inside.1
  rw [same]
  refine ⟨?_, proper.running t (List.mem_of_getElem? found)⟩
  rw [proper.numbered found]
  omega

end Recording

/-! ## Commands -/

/-- A stepper that stands at a position of a recording. -/
structure Stepper.At (s : Stepper) (p : Program) (settings : Settings) (pos : Position) : Prop where
  sameProgram : s.program = p
  sameSettings : s.settings = settings
  holds : (p.recording settings).Holds pos
  current : s.current = (p.recording settings).snapshot pos

namespace Stepper
variable {p : Program} {settings : Settings}

/-- To resume is to go to the next point that is accepted. -/
theorem resume_at (ends : p.Ends settings) {s : Stepper} {c : Command} (resumes : ∀ n, c ≠ .seek n)
    (program : s.program = p) (same : s.settings = settings) {step : Nat} (now : s.current.step = step)
    (running : s.current.finished = false) :
    (s.resume c.request).At p settings ((p.recording settings).next c s.current step) := by
  subst program
  subst same
  have proper := Program.recording_proper ends
  unfold resume
  rw [running, if_neg Bool.false_ne_true]
  refine ⟨rfl, rfl, Recording.holds_next _ _ _ _, ?_⟩
  rw [s.replay_current c.request (fun t => decide (s.current.step < t.step) && c.accepts s.current t)
      fun e t => c.request_halts resumes s.current,
    Recording.snapshot_next, now, proper.find?_after]

/-- Seeking goes to the point with the step number. -/
theorem seek_at (ends : p.Ends settings) {s : Stepper} (program : s.program = p) (same : s.settings = settings)
    (pos : Position) (n : Nat) : (s.seek n).At p settings ((p.recording settings).move pos (.seek n)) := by
  subst program
  subst same
  have proper := Program.recording_proper ends
  have holds := (s.program.recording s.settings).holds_move pos (.seek n)
  unfold seek
  simp only [Recording.move] at holds ⊢
  by_cases zero : n = 0
  · rw [if_pos zero, if_pos zero]
    exact ⟨rfl, rfl, trivial, rfl⟩
  · rw [if_neg zero] at holds
    rw [if_neg zero, if_neg zero]
    refine ⟨rfl, rfl, holds, ?_⟩
    -- reaching a step is being after the one before
    have reached (e : Event) (t : State) (_ : t.lastEvent = some e) : (StepRequest.step n).halts s.current e t =
        (decide (n - 1 < (Snapshot.capture t none).step) && true) := by
      show decide (n ≤ t.steps) = (decide (n - 1 < t.steps) && true)
      rw [Bool.and_true, decide_eq_decide]
      omega
    rw [s.replay_current _ (fun t => decide (n - 1 < t.step) && true) reached, proper.find?_after]
    split
    · rename_i inside
      have bound : n - 1 < (s.program.recording s.settings).points.length := by omega
      rw [List.drop_eq_getElem_cons bound, List.find?_cons_of_pos rfl]
      show _ = (s.program.recording s.settings).points.getD (n - 1) _
      rw [List.getD_eq_getElem?_getD, List.getElem?_eq_getElem bound]
    · rename_i outside
      rw [List.drop_eq_nil_of_le (by omega)]
      rfl

/-- One command moves the cursor. -/
theorem perform_at (ends : p.Ends settings) {s : Stepper} {pos : Position} (h : s.At p settings pos) (c : Command) :
    (s.perform c).At p settings ((p.recording settings).move pos c) := by
  have proper := Program.recording_proper ends
  by_cases seeks : ∃ n, c = .seek n
  · obtain ⟨n, rfl⟩ := seeks
    exact seek_at ends h.sameProgram h.sameSettings pos n
  · have resumes (n : Nat) : c ≠ .seek n := fun same => seeks ⟨n, same⟩
    have performed : s.perform c = s.resume c.request := by
      cases c with
      | seek n => exact absurd rfl (resumes n)
      | _ => rfl
    rw [performed]
    cases pos with
    | start =>
      have moved : (p.recording settings).move .start c = (p.recording settings).next c s.current 0 := by
        rw [h.current]
        cases c with
        | seek n => exact absurd rfl (resumes n)
        | _ => rfl
      rw [moved]
      exact resume_at ends resumes h.sameProgram h.sameSettings (by rw [h.current]; rfl) (by rw [h.current]; rfl)
    | point i =>
      have moved : (p.recording settings).move (.point i) c = (p.recording settings).next c s.current i := by
        rw [h.current]
        cases c with
        | seek n => exact absurd rfl (resumes n)
        | _ => rfl
      obtain ⟨step, running⟩ := proper.step_point h.holds
      rw [moved]
      exact resume_at ends resumes h.sameProgram h.sameSettings (by rw [h.current, step]) (by rw [h.current, running])
    | finish =>
      have moved : (p.recording settings).move .finish c = .finish := by
        cases c with
        | seek n => exact absurd rfl (resumes n)
        | _ => rfl
      have done : s.current.finished = true := by rw [h.current]; exact proper.finished
      rw [moved]
      unfold resume
      rw [if_pos done]
      exact h

theorem performs_at (ends : p.Ends settings) : ∀ (commands : List Command) {s : Stepper} {pos : Position},
    s.At p settings pos →
    (commands.foldl perform s).At p settings (commands.foldl (p.recording settings).move pos)
  | [], _, _, h => h
  | c :: rest, _, _, h => performs_at ends rest (perform_at ends h c)

end Stepper

/-- The snapshot of a stepper after any commands is the one that the recording of the
    program has where the commands move the cursor: the initial one, the point with some
    step number, or the end. -/
theorem stepper_cursor (p : Program) (settings : Settings) (ends : p.Ends settings) :
    (p.recording settings).Proper ∧
    ∀ commands : List Command,
      let r := p.recording settings
      let pos := commands.foldl r.move .start
      (commands.foldl Stepper.perform ⟨p, settings, {}⟩).current = r.snapshot pos ∧
      ∀ i, pos = .point i → 1 ≤ i ∧ i ≤ r.points.length ∧ (r.snapshot pos).step = i := by
  have proper := Program.recording_proper ends
  refine ⟨proper, fun commands => ?_⟩
  have begun : Stepper.At ⟨p, settings, {}⟩ p settings .start := ⟨rfl, rfl, trivial, rfl⟩
  have arrived := Stepper.performs_at ends commands begun
  refine ⟨arrived.current, fun i here => ?_⟩
  have holds := arrived.holds
  rw [here] at holds ⊢
  exact ⟨holds.1, holds.2, (proper.step_point holds).1⟩

/-- To the end, where stepping changes nothing, back into a function and out of it. -/
theorem stepper_leaves_function :
    let p : Program :=
      ⟨[Tree.func "int" "f" [] [Tree.returnValue (some (Tree.num 1.0))], Tree.expr (Tree.call "f" [])], none⟩
    p.Ends {} ∧ ([Command.runToEnd, .stepOver, .seek 7, .stepOut].foldl Stepper.perform ⟨p, {}, {}⟩).current =
      (p.recording {}).snapshot (.point 12) := by
  intro p
  have ends : p.Ends {} := by
    unfold Program.Ends
    decide +kernel
  have moved : [Command.runToEnd, .stepOver, .seek 7, .stepOut].foldl (p.recording {}).move .start = .point 12 := by
    decide +kernel
  rw [← moved]
  exact ⟨ends, ((stepper_cursor p {} ends).2 _).1⟩

end MiniC
