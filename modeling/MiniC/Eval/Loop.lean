import MiniC.Eval.Force

/-!
# Loops

A loop is a number of rounds. Its body gets a frame of its own in every round;
`break` ends the loop, `continue` only the round, and `return` passes through.
-/

namespace MiniC

/-- How the loop ends after a round whose body has completed, if it ends. -/
def Completion.endsLoop? : Completion → Option Completion
  | normal _ | jump .continueLoop _ => none
  | jump .breakLoop _ => some (.normal .void)
  | returned v => some (.returned v)

namespace Eval
variable {σ : Type}

/-- Repeats a round until one says how the loop ends. -/
def rounds (round : Eval σ (Option Completion)) : Nat → Eval σ Completion
  | 0 => throw .outOfFuel
  | fuel + 1 => do
    match ← round with
    | none => rounds round fuel
    | some c => pure c

end Eval

namespace Visitor
variable {σ : Type} (inner : Visitor σ)

/-- Evaluates the test of a loop; a loop whose test fails ends normally. -/
def loopTest (test : Node) : Eval σ (Option Completion) :=
  return if ← inner.holds test then none else some (.normal .void)

/-- Evaluates the body of a loop. -/
def loopBody (body : Node) (kind : LoopKind) : Eval σ (Option Completion) :=
  return (← inner.visit body (.loop kind)).endsLoop?

/-- Evaluates a `while` loop. -/
def whileLoop (test body : Node) : Eval σ Completion :=
  Eval.rounds (do
    match ← inner.loopTest test with
    | none => inner.loopBody body .whileLoop
    | ended => pure ended) inner.fuel

/-- Evaluates a `do` loop. -/
def doLoop (body test : Node) : Eval σ Completion :=
  Eval.rounds (do
    match ← inner.loopBody body .doLoop with
    | none => inner.loopTest test
    | ended => pure ended) inner.fuel

/-- Evaluates the test of a `for` loop, which may have none. -/
def forTest : Option Node → Eval σ (Option Completion)
  | some test => inner.loopTest test
  | none => pure none

/-- Evaluates one round of a `for` loop. -/
def forRound (test update : Option Node) (body : Node) : Eval σ (Option Completion) := do
  match ← inner.forTest test with
  | some c => pure (some c)
  | none =>
    match ← inner.loopBody body .forLoop with
    | some c => pure (some c)
    | none => do
      if let some update := update then
        discard (inner.expression update)
      pure none

/-- Evaluates a `for` loop. What its head declares lives in a frame of its own,
    around those of the body. -/
def forLoop (start test update : Option Node) (body : Node) : Eval σ Completion :=
  Eval.inFrame (.loop .forLoop) do
    if let some start := start then
      discard (inner.node start)
    Eval.rounds (inner.forRound test update body) inner.fuel

end Visitor
end MiniC
