import MiniC.Session
import MiniC.Snapshot

/-!
# Stepping through a program

Evaluation has no other input than the program and its settings, so every point
of it can be reached, also backwards, by running the program again from the start
and halting there. A request says where to halt, relative to a snapshot.
-/

namespace MiniC

/-- Where to halt next. -/
inductive StepRequest where
  /-- At the next event. -/
  | into
  /-- At the next event that is not inside the node of the snapshot. -/
  | over
  /-- At the first event after the return from the function of the snapshot. -/
  | out
  /-- At the first entry of a node on a line. -/
  | line (line : UInt32)
  /-- At a step of the run, or the first event after it. -/
  | step (step : Nat)
  /-- Nowhere. -/
  | last
deriving DecidableEq, Repr

/-- Whether to halt at an event, for a request made at a snapshot. -/
def StepRequest.halts (r : StepRequest) (start : Snapshot) (e : Event) (s : State) : Bool :=
  match r with
  | .step target => target ≤ s.steps
  | .last => false
  | .into => start.step < s.steps
  | .over => start.step < s.steps && e.depth s ≤ start.depth
  | .out => start.step < s.steps && s.callDepth < start.callDepth
  | .line n => start.step < s.steps && e.isEnter && e.node.loc.map (·.line) == some n

/-- How a run has ended, if it has: with a value or with an error. -/
def outcome? : Except Interrupt Value → Option (Option Value)
  | .ok v => some (some v)
  | .error (.error _) => some none
  | .error _ => none

/-- A program with the snapshot at which stepping through it has arrived. -/
structure Stepper where
  program : Program
  settings : Settings
  current : Snapshot := {}

namespace Stepper

/-- Runs the program from the start up to the point of a request. -/
def replay (s : Stepper) (r : StepRequest) : Stepper :=
  let session := { Session.start s.settings () with observer := some (.haltingAt (r.halts s.current)) }
  let (result, session) := session.execute s.program
  { s with current := .capture session.state (outcome? result) }

/-- Goes on to the point of a request, unless the run is finished. -/
def resume (s : Stepper) (r : StepRequest) : Stepper :=
  if s.current.finished then s else s.replay r

/-- Goes to a step of the run, forwards or backwards. Step zero is before the
    start. -/
def seek (s : Stepper) (step : Nat) : Stepper :=
  if step = 0 then { s with current := {} } else s.replay (.step step)

end Stepper
end MiniC
