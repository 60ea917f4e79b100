import MiniC.Proofs.CallSites
import MiniC.Proofs.Cursor

/-!
# Where stepping over and out land

A stepper compares nothing but depths. This is enough to find the exit of the very visit that
it stands at the entry of, through loops and recursion, and the exit of the call expression
that made the innermost call (`stepping_lands`).
-/

namespace MiniC

/-! ## The log of a program -/

namespace Program
variable (p : Program) (settings : Settings)

/-- The log is that of a task. -/
theorem log_eq : p.log settings = (⟨settings, .logging, [], Eval.ampleFuel, p⟩ : Task).log .seeded := by
  obtain ⟨-, shown, -⟩ := (⟨settings, .logging, [], Eval.ampleFuel, p⟩ : Task).trails .seeded
  unfold log
  rw [shown]
  show (Observer.shown (.recording Prod.mk) [] _).reverse = _
  rw [Observer.shown_recording]
  simp

/-- What is open at the end of a log has been left by no event of it. -/
theorem log_brackets : ∃ left, Log.Brackets [] (p.log settings) left := by
  obtain ⟨s', stopped⟩ := (⟨settings, .logging, [], Eval.ampleFuel, p⟩ : Task).stopped .seeded
  obtain ⟨above, brackets⟩ := stopped.brackets [] rfl
  rw [log_eq]
  exact ⟨_, brackets⟩

/-- A log begins outside all calls. -/
theorem log_sited : Log.Sited false State.seeded.beginEvaluation (p.log settings) := by
  obtain ⟨log, watched, inside⟩ := (Eval.Placed.program settings Eval.ampleFuel p).log ⟨State.seeded.beginEvaluation, []⟩
  have same : p.log settings = log := by
    unfold Program.log
    rw [Eval.execute_eq]
    dsimp only
    rw [watched]
    simp
  rw [same]
  have sited := inside.sited
  generalize (Eval.runOn _ _).1.isOk = ended at sited
  cases ended with
  | false => exact sited
  | true => exact sited.unfinished

end Program

/-! ## Landing -/

namespace Stepper
variable (s : Stepper)

/-- A request leads to the first event at which it halts, or else to the end. -/
theorem replay_lands (request : StepRequest) : (s.replay request).current =
    (((s.program.log s.settings).find? fun entry => request.halts s.current entry.1 entry.2).map
      fun entry => .capture entry.2 none).getD (s.program.recording s.settings).last := by
  obtain ⟨-, -, -, -, arrives⟩ := s.program.recording_log s.settings
  refine (arrives (request.halts s.current)).trans ?_
  cases (s.program.log s.settings).find? fun entry => request.halts s.current entry.1 entry.2 with
  | none => rfl
  | some entry => rfl

/-- Where steppers stand: before the start, at an event of the log, or at its end. -/
def Stands (p : Program) (settings : Settings) (s : Stepper) : Prop :=
  s.program = p ∧ s.settings = settings ∧ (s.current = {} ∨ (∃ entry ∈ p.log settings, s.current = .capture entry.2 none) ∨
    s.current = (p.recording settings).last)

variable {s} {p : Program} {settings : Settings}

theorem Stands.replay (h : s.Stands p settings) (request : StepRequest) : (s.replay request).Stands p settings := by
  obtain ⟨rfl, rfl, -⟩ := h
  refine ⟨rfl, rfl, .inr ?_⟩
  rw [replay_lands]
  cases found : (s.program.log s.settings).find? fun entry => request.halts s.current entry.1 entry.2 with
  | none => exact .inr rfl
  | some entry => exact .inl ⟨entry, List.mem_of_find?_eq_some found, rfl⟩

theorem Stands.perform (h : s.Stands p settings) (c : Command) : (s.perform c).Stands p settings := by
  have resumed : (s.resume c.request).Stands p settings := by
    unfold resume
    split
    · exact h
    · exact h.replay _
  cases c with
  | seek n =>
    show (s.seek n).Stands p settings
    unfold seek
    split
    · exact ⟨h.1, h.2.1, .inl rfl⟩
    · exact h.replay _
  | _ => exact resumed

theorem Stands.performs (h : s.Stands p settings) (commands : List Command) :
    (commands.foldl Stepper.perform s).Stands p settings := by
  induction commands generalizing s with
  | nil => exact h
  | cons c rest ih => exact ih (h.perform c)

end Stepper

/-- Among numbered events those after a point are the ones with greater numbers. -/
theorem Log.Numbered.find?_later {before after : Log} {e : Event} {u : State} {k : Nat}
    (numbered : Log.Numbered k (before ++ (e, u) :: after)) (q : Event × State → Bool) :
    (before ++ (e, u) :: after).find? (fun entry => decide (u.steps < entry.2.steps) && q entry) = after.find? q := by
  have increasing : (before ++ (e, u) :: after).Pairwise fun a b => a.2.steps < b.2.steps := by
    refine List.pairwise_map.mp ?_
    rw [show _ = _ from numbered]
    exact List.pairwise_lt_range'
  obtain ⟨-, onward, earlier⟩ := List.pairwise_append.mp increasing
  have later := (List.pairwise_cons.mp onward).1
  have none : before.find? (fun entry => decide (u.steps < entry.2.steps) && q entry) = none := by
    rw [List.find?_eq_none]
    intro entry member
    have smaller := earlier entry member (e, u) List.mem_cons_self
    simp [Nat.le_of_lt smaller]
  rw [List.find?_append, none, Option.none_or, List.find?_cons_of_neg (by simp)]
  rw [← List.head?_filter, ← List.head?_filter]
  refine congrArg List.head? (List.filter_congr fun entry member => ?_)
  simp [later entry member]

/-- A stepper that stands at an event of the log. -/
structure Stepper.StandsAt (s : Stepper) (before : Log) (e : Event) (u : State) (after : Log) : Prop where
  log : s.program.log s.settings = before ++ (e, u) :: after
  current : s.current = .capture u none

namespace Stepper.StandsAt
variable {s : Stepper} {before after : Log} {e : Event} {u : State} (h : s.StandsAt before e u after)
include h

/-- To resume is to go to the first later event that is accepted. -/
theorem resume_lands (request : StepRequest) (accepts : Event × State → Bool)
    (halts : ∀ e' t, request.halts s.current e' t = (decide (u.steps < t.steps) && accepts (e', t))) :
    (s.resume request).current = ((after.find? accepts).map fun entry => .capture entry.2 none).getD
      (s.program.recording s.settings).last := by
  have running : s.current.finished = false := by rw [h.current]; rfl
  have numbered : Log.Numbered 0 (before ++ (e, u) :: after) := by
    obtain ⟨-, -, steps, -⟩ := s.program.recording_log s.settings
    rwa [h.log] at steps
  unfold resume
  rw [running, if_neg Bool.false_ne_true, replay_lands, h.log]
  have same : (fun entry : Event × State => request.halts s.current entry.1 entry.2) =
      fun entry => decide (u.steps < entry.2.steps) && accepts entry := funext fun entry => halts entry.1 entry.2
  rw [same, numbered.find?_later]

theorem stepOver_lands : (s.perform .stepOver).current =
    ((after.find? fun entry => entry.1.depth entry.2 ≤ e.depth u).map fun entry => .capture entry.2 none).getD
      (s.program.recording s.settings).last := by
  refine h.resume_lands .over _ fun e' t => ?_
  have last : u.lastEvent = some e := by
    obtain ⟨-, events, -⟩ := s.program.recording_log s.settings
    exact events (e, u) (by rw [h.log]; simp)
  have depth : s.current.depth = e.depth u := by
    rw [h.current]
    unfold Snapshot.depth Snapshot.capture
    rw [last]
    cases e <;> rfl
  show (decide (s.current.step < t.steps) && decide (e'.depth t ≤ s.current.depth)) = _
  rw [depth, h.current]
  rfl

theorem stepOut_lands : (s.perform .stepOut).current =
    ((after.find? fun entry => entry.2.callDepth < u.callDepth).map fun entry => .capture entry.2 none).getD
      (s.program.recording s.settings).last := by
  refine h.resume_lands .out _ fun e' t => ?_
  rw [h.current]
  rfl

/-- Stepping over leads from the entry of a node to its exit in the same visit, or to the end if
    there is none. -/
theorem stepOver_from_enter {n : NodeSummary} (enters : e = .enter n) :
    (∃ inner v rest, after.Leaves inner (.exit n) v rest ∧ u.SameControl v ∧
      (s.perform .stepOver).current = .capture v none) ∨
    (∀ inner e' v rest, ¬ after.Leaves inner e' v rest) ∧
      (s.perform .stepOver).current = (s.program.recording s.settings).last := by
  subst enters
  obtain ⟨left, brackets⟩ := s.program.log_brackets s.settings
  rw [h.log] at brackets
  obtain ⟨opened, -, brackets⟩ := brackets.split
  cases brackets with | enter nodes onward => ?_
  have depth : (Event.enter n).depth u = opened.length + 1 := by
    show u.nodes.length = _
    rw [nodes]
    simp
  have landed := h.stepOver_lands
  rw [depth] at landed
  rcases onward.leaves_or_stays with ⟨inner, v, rest, leaves, same, visiting, -, deeper⟩ | deeper
  · have found : after.find? (fun entry => entry.1.depth entry.2 ≤ opened.length + 1) = some (.exit n, v) := by
      refine List.find?_eq_some_iff_append.mpr ⟨?_, inner, rest, leaves.1, fun entry member => ?_⟩
      · exact decide_eq_true (Nat.succ_le_succ (Nat.le_of_eq visiting))
      · simpa using deeper entry member
    rw [found] at landed
    exact .inl ⟨inner, v, rest, leaves, same, landed⟩
  · have found : after.find? (fun entry => entry.1.depth entry.2 ≤ opened.length + 1) = none := by
      refine List.find?_eq_none.mpr fun entry member => ?_
      simpa using deeper entry member
    rw [found] at landed
    exact .inr ⟨fun inner e' v rest => onward.not_leaves deeper, landed⟩

/-- Stepping over leads from the exit of a node to the next event. -/
theorem stepOver_from_exit {n : NodeSummary} (exits : e = .exit n) :
    (s.perform .stepOver).current =
      (after.head?.map fun entry => .capture entry.2 none).getD (s.program.recording s.settings).last := by
  subst exits
  obtain ⟨left, brackets⟩ := s.program.log_brackets s.settings
  rw [h.log] at brackets
  obtain ⟨opened, -, brackets⟩ := brackets.split
  cases brackets with | @exit opened _ _ _ _ _ nodes same onward => ?_
  have depth : (Event.exit n).depth u = opened.length + 1 := by
    show u.nodes.length + 1 = _
    rw [nodes, List.length_map]
  have landed := h.stepOver_lands
  rw [depth] at landed
  cases after with
  | nil => exact landed
  | cons next after =>
    have found : (next :: after).find? (fun entry => entry.1.depth entry.2 ≤ opened.length + 1) = some next :=
      List.find?_cons_of_pos (by exact decide_eq_true onward.depth_head)
    rwa [found] at landed

/-- Stepping out leads to the exit of the call expression that made the innermost call, or to the
    end if the call does not return. -/
theorem stepOut_from_call (inside : 0 < u.callDepth) : ∃ n w since, before.CallSite u n w since ∧
    ((∃ inner v rest, (since ++ (e, u) :: after).Leaves (since ++ (e, u) :: inner) (.exit n) v rest ∧ w.SameControl v ∧
      (s.perform .stepOut).current = .capture v none) ∨
    (∀ entry ∈ after, u.calls <:+ entry.2.calls) ∧
      (s.perform .stepOut).current = (s.program.recording s.settings).last) := by
  obtain ⟨n, w, since, site, found⟩ := (s.program.log_sited s.settings).caller h.log inside
  have within (entry : Event × State) (same : u.calls <:+ entry.2.calls) : ¬ entry.2.callDepth < u.callDepth :=
    Nat.not_lt.mpr same.length_le
  have landed := h.stepOut_lands
  refine ⟨n, w, since, site, ?_⟩
  rcases found with ⟨inner, v, rest, leaves, same, deeper⟩ | ⟨-, deeper⟩
  · have split : after = inner ++ (.exit n, v) :: rest := by simpa using leaves.1
    have found : after.find? (fun entry => entry.2.callDepth < u.callDepth) = some (.exit n, v) := by
      refine List.find?_eq_some_iff_append.mpr ⟨decide_eq_true ?_, inner, rest, split, fun entry member => ?_⟩
      · obtain ⟨function, frame, made⟩ := site.made
        rw [State.callDepth, State.callDepth, made, same.2]
        exact Nat.lt_succ_self _
      · simpa using within entry (deeper entry member)
    rw [found] at landed
    exact .inl ⟨inner, v, rest, leaves, same, landed⟩
  · have found : after.find? (fun entry => entry.2.callDepth < u.callDepth) = none := by
      refine List.find?_eq_none.mpr fun entry member => ?_
      simpa using within entry (deeper entry member)
    rw [found] at landed
    exact .inr ⟨deeper, landed⟩

end Stepper.StandsAt

/-- Wherever commands lead, a stepper stands before the start of the run, at one of its events,
    or at its end, which is finished if the run has failed. From the entry of a node, stepping
    over leads to the exit that matches it, in the state of control of the entry, and from an
    exit to the next event. From inside a call, stepping out leads to the exit of the visit that
    made the call, in the state of control in which this was entered. If the visit is not left,
    or the call does not return, they lead to the end. -/
theorem stepping_lands (p : Program) (settings : Settings) :
    (∀ commands : List Command, (commands.foldl Stepper.perform ⟨p, settings, {}⟩).Stands p settings) ∧
    (∀ e, (p.run settings).1 = .error (.error e) → (p.recording settings).last.finished = true) ∧
    ∀ (before after : Log) (e : Event) (u : State) (s : Stepper), s.program = p → s.settings = settings →
      s.StandsAt before e u after →
      (∀ n, e = .enter n →
        (∃ inner v rest, after.Leaves inner (.exit n) v rest ∧ u.SameControl v ∧
          (s.perform .stepOver).current = .capture v none) ∨
        (∀ inner e' v rest, ¬ after.Leaves inner e' v rest) ∧ (s.perform .stepOver).current = (p.recording settings).last) ∧
      (∀ n, e = .exit n → (s.perform .stepOver).current =
        (after.head?.map fun entry => .capture entry.2 none).getD (p.recording settings).last) ∧
      (0 < u.callDepth → ∃ n w since, before.CallSite u n w since ∧
        ((∃ inner v rest, (since ++ (e, u) :: after).Leaves (since ++ (e, u) :: inner) (.exit n) v rest ∧ w.SameControl v ∧
          (s.perform .stepOut).current = .capture v none) ∨
        (∀ entry ∈ after, u.calls <:+ entry.2.calls) ∧ (s.perform .stepOut).current = (p.recording settings).last)) := by
  have start : Stepper.Stands p settings ⟨p, settings, {}⟩ := ⟨rfl, rfl, .inl rfl⟩
  refine ⟨start.performs, fun e failed => ?_, ?_⟩
  · obtain ⟨-, -, -, finished, -⟩ := p.recording_log settings
    rw [finished, failed]
    rfl
  · rintro before after e u s rfl rfl h
    exact ⟨fun n => h.stepOver_from_enter, fun n => h.stepOver_from_exit, h.stepOut_from_call⟩

/-- At the entry of a recursive call, inside the call that makes it. -/
theorem stepping_lands_recursive :
    let again := Tree.call "f" [Tree.bool false]
    let f := Tree.func "int" "f" [("bool", "b")] [Tree.branch (Tree.ident "b") (Tree.expr again) none]
    let p : Program := ⟨[f, Tree.expr (Tree.call "f" [Tree.bool true])], none⟩
    let n : NodeSummary := ⟨.callExpression, none⟩
    ∃ before u after, Stepper.StandsAt ⟨p, {}, .capture u none⟩ before (.enter n) u after ∧ 0 < u.callDepth ∧
      let s : Stepper := ⟨p, {}, .capture u none⟩
      ((∃ inner v rest, after.Leaves inner (.exit n) v rest ∧ u.SameControl v ∧
          (s.perform .stepOver).current = .capture v none) ∨
        (∀ inner e' v rest, ¬ after.Leaves inner e' v rest) ∧ (s.perform .stepOver).current = (p.recording {}).last) ∧
      ∃ m w since, before.CallSite u m w since ∧
        ((∃ inner v rest, (since ++ (.enter n, u) :: after).Leaves (since ++ (.enter n, u) :: inner) (.exit m) v rest ∧
          w.SameControl v ∧ (s.perform .stepOut).current = .capture v none) ∨
        (∀ entry ∈ after, u.calls <:+ entry.2.calls) ∧ (s.perform .stepOut).current = (p.recording {}).last) := by
  intro again f p n
  have shown : ((p.log {})[12]?).map (fun entry => (entry.1, entry.2.callDepth)) = some (.enter n, 1) := by decide +kernel
  generalize whole : p.log {} = log at shown
  obtain ⟨⟨e, u⟩, found, point⟩ := Option.map_eq_some_iff.mp shown
  obtain ⟨before, after, split⟩ := List.append_of_mem (List.mem_of_getElem? found)
  obtain ⟨rfl, depth⟩ := Prod.mk.inj point
  have stands : Stepper.StandsAt ⟨p, {}, .capture u none⟩ before (.enter n) u after := ⟨whole.trans split, rfl⟩
  have inside : 0 < u.callDepth := Nat.lt_of_lt_of_eq Nat.one_pos depth.symm
  obtain ⟨past, -, out⟩ := (stepping_lands p {}).2.2 before after (.enter n) u _ rfl rfl stands
  exact ⟨before, u, after, stands, inside, past n rfl, out inside⟩

end MiniC
