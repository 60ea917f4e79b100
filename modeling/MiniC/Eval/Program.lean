import MiniC.Eval.Visit

/-!
# Programs

A program runs its statements and then, if it declares the entry point, calls it.
An evaluation starts at the global frame with no steps made. If it fails, the
error is recorded and everything but the global frame is given up; if it is
halted, the state stays as it is.
-/

namespace MiniC

/-- Whether a node declares a function of a name. -/
def Node.declaresFunction (n : Node) (name : String) : Bool :=
  match n.form with
  | .function id _ _ =>
    match id.declared with
    | .ok (found, _) => found == name
    | .error _ => false
  | _ => false

/-- The call of the entry point, if the program declares it. -/
def Program.entryCall? (p : Program) (settings : Settings) : Option Node :=
  settings.entryPoint.bind fun name =>
    if p.body.any (·.declaresFunction name) then some (Tree.call name []) else none

/-- The state in which programs start: the built-in functions and `NULL` are
    declared. -/
def State.seeded : State :=
  let s := Builtin.all.foldl (fun s f => s.bind .global f.name ⟨f.result, .builtin f⟩) ({} : State)
  s.bind .global "NULL" ⟨(Kind.plain .void).pointerTo, .number 0.0⟩

namespace Eval
variable {σ : Type}

/-- The value of a program whose statements have completed: that of a `return`
    outside functions, or of the call of the entry point, or of the last statement. -/
def programValue (inner : Visitor σ) (entry : Option Node) : Completion → Eval σ Value
  | .returned v => pure v
  | .jump jump span => fail (.jumpOutsideLoop jump span)
  | .normal last => do
    let v ← inner.force last
    match entry with
    | some call => inner.actual call
    | none => pure v

/-- Evaluates a program. -/
def program (ctx : Context σ) (inner : Visitor σ) (p : Program) : Eval σ Value := do
  enter ctx p.summary
  let v ← programValue inner (p.entryCall? ctx.settings) (← inner.statements .void p.body)
  exit ctx p.summary
  pure v

/-- More fuel than any evaluation can use up. -/
def ampleFuel : Nat := pow10 18

/-- Runs an evaluation on a machine as it is. -/
def runOn {α : Type} (x : Eval σ α) (m : Machine σ) : Except Interrupt α × Machine σ :=
  match x m with
  | .ok a m => (.ok a, m)
  | .error i m => (.error i, m)

/-- Runs a program on a machine. -/
def execute (ctx : Context σ) (fuel : Nat) (p : Program) (m : Machine σ) :
    Except Interrupt Value × Machine σ :=
  match runOn (program ctx (visitor ctx fuel) p) { m with state := m.state.beginEvaluation } with
  | (.error (.error e), m) => (.error (.error e), { m with state := m.state.recover e })
  | result => result

/-- Forces a value on a machine. An error is not recorded, and leaves the state as
    it is. -/
def forceOn (ctx : Context σ) (fuel : Nat) (v : Value) (m : Machine σ) : Except Interrupt Value × Machine σ :=
  runOn ((visitor ctx fuel).force v) m

end Eval
end MiniC
