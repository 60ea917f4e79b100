import MiniC.Settings.Basic
import MiniC.Text.Digit
import MiniC.Number.Power

/-!
# Settings from variables

Three variables of the environment override settings, in this order: the
strategy, the depth of calls and the number of steps.
-/

namespace MiniC

/-- The variables of an environment. -/
abbrev Variables := String → Option String

/-- What puts settings together. It looks at the variables unless it is told not to. -/
structure Loader where
  ignoresVariables : Bool := false
deriving DecidableEq, Repr, Inhabited

/-- A loader for settings that come from files alone. -/
def Loader.withoutVariables : Loader := ⟨true⟩

namespace Settings

/-- The number that a variable spells: decimal digits with blanks around them,
    perhaps with a plus sign, below `2 ^ 64`. -/
def numberOfText (name raw : String) : Except SettingsError Nat :=
  let digits :=
    match Text.trim raw.toList with
    | '+' :: digits => digits
    | digits => digits
  let n := if digits.isEmpty then none else Text.digitsValue? 10 0 digits
  match n.filter (· < pow2 64) with
  | some n => .ok n
  | none => .error (.invalid name s!"expected a non-negative integer, found \"{raw}\"")

/-- Settings with the variables laid over them. -/
def override (s : Settings) (env : Variables) : Except SettingsError Settings := do
  let strategy ← match env "CWALK_STRATEGY" with
    | some raw => Strategy.ofText raw
    | none => pure s.strategy
  let maxCallDepth ← match env "CWALK_MAX_CALL_DEPTH" with
    | some raw => numberOfText "CWALK_MAX_CALL_DEPTH" raw
    | none => pure s.maxCallDepth
  let maxSteps ← match env "CWALK_MAX_STEPS" with
    | some raw => some <$> numberOfText "CWALK_MAX_STEPS" raw
    | none => pure s.maxSteps
  return { s with strategy, maxCallDepth, maxSteps }

end Settings

/-- The settings that a section and the variables give together. They have to be
    valid in the end. -/
def Loader.resolve (l : Loader) (written : Option Section) (env : Variables) : Except SettingsError Settings := do
  let s := Settings.overlay {} (written.getD {})
  let s ← if l.ignoresVariables then pure s else s.override env
  s.validate
  return s

end MiniC
