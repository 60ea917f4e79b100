import MiniC.Text.Lowercase

/-!
# Settings of an evaluation

Settings are complete; a section holds those that somebody has written down. A
section laid over settings replaces what it mentions.
-/

namespace MiniC

/-- When the initialiser of a variable is computed: at its declaration, or when
    the variable is first read. -/
inductive Strategy where
  | strict | lazy
deriving DecidableEq, Repr, Inhabited

/-- The name of a strategy. -/
def Strategy.name : Strategy → String
  | strict => "strict" | lazy => "lazy"

/-- The strategy of a name. -/
def Strategy.ofName? (s : String) : Option Strategy := [strict, lazy].find? (·.name == s)

/-- The reasons why a file cannot be read. -/
inductive ReadFault where
  | isDirectory
  | notADirectory
  | notText
deriving DecidableEq, Repr

/-- The wording of a read fault. -/
def ReadFault.message : ReadFault → String
  | isDirectory => "Is a directory (os error 21)"
  | notADirectory => "Not a directory (os error 20)"
  | notText => "stream did not contain valid UTF-8"

/-- Why no settings can be given. -/
inductive SettingsError where
  | notFound (path : String)
  | unreadable (fault : ReadFault)
  | malformed
  | invalid (field reason : String)
deriving DecidableEq, Repr

/-- The wording of a settings error. -/
def SettingsError.message : SettingsError → String
  | notFound path => s!"Configuration file not found: {path}"
  | unreadable fault => s!"Failed to read configuration file: {fault.message}"
  | malformed => "Invalid configuration file"
  | invalid field reason => s!"Invalid value for '{field}': {reason}"

/-- The strategy that a text names, in any case and with blanks around it. -/
def Strategy.ofText (s : String) : Except SettingsError Strategy :=
  let name := String.ofList (Text.lower (Text.trim s.toList))
  match ofName? name with
  | some strategy => .ok strategy
  | none => .error (.invalid "evaluator.strategy" s!"expected \"strict\" or \"lazy\", found \"{name}\"")

/-- The settings of an evaluation: the strategy, the most calls inside each
    other, the most steps, and the function that is called after the statements
    of the program have run. -/
structure Settings where
  strategy : Strategy := .strict
  maxCallDepth : Nat := 256
  maxSteps : Option Nat := none
  entryPoint : Option String := some "main"
deriving DecidableEq, Repr, Inhabited

/-- The settings that a file mentions. -/
structure Section where
  strategy : Option Strategy := none
  maxCallDepth : Option Nat := none
  maxSteps : Option Nat := none
  entryPoint : Option String := none
deriving DecidableEq, Repr, Inhabited

namespace Settings

/-- Lays a section over settings. An empty entry point means that there is none. -/
def overlay (s : Settings) (written : Section) : Settings where
  strategy := written.strategy.getD s.strategy
  maxCallDepth := written.maxCallDepth.getD s.maxCallDepth
  maxSteps := written.maxSteps <|> s.maxSteps
  entryPoint :=
    match written.entryPoint with
    | none => s.entryPoint
    | some name => if name.isEmpty then none else some name

/-- Settings can be used when both limits allow something. -/
def validate (s : Settings) : Except SettingsError Unit :=
  if s.maxCallDepth = 0 then .error (.invalid "evaluator.max_call_depth" "must be at least 1")
  else if s.maxSteps = some 0 then .error (.invalid "evaluator.max_steps" "must be at least 1")
  else .ok ()

end Settings
end MiniC
