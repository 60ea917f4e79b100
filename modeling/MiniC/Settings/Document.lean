import MiniC.Settings.Basic
import MiniC.Toml.Basic

/-!
# Settings documents

A document holds one table at most, `evaluator`, and that table any of the four
settings. Whatever else stands in a document makes it malformed.
-/

namespace MiniC

/-- A strategy is written as its name, or as a table whose only key is the name
    and whose value is empty. -/
def Strategy.ofToml? : Toml → Option Strategy
  | .text name => ofName? name
  | .table _ [(name, value)] => if value.isEmpty then ofName? name else none
  | _ => none

namespace Section

/-- A limit is written as an integer that is not negative. -/
def limit? : Toml → Option Nat
  | .integer n => if 0 ≤ n then some n.toNat else none
  | _ => none

/-- A name is written as a text. -/
def name? : Toml → Option String
  | .text s => some s
  | _ => none

/-- The names of the settings, in order. -/
def keys : List String := ["strategy", "max_call_depth", "max_steps", "entry_point"]

/-- Reads the value of a key, if there is one. -/
def field? {α : Type} (read? : Toml → Option α) (fields : Toml.Fields) (key : String) : Option (Option α) :=
  match fields.lookup key with
  | none => some none
  | some value => (read? value).map some

/-- A section is written as a table, or as the list of its values. -/
def ofToml? : Toml → Option Section
  | .table _ fields => do
    guard (fields.all fun (key, _) => keys.contains key)
    return ⟨← field? Strategy.ofToml? fields "strategy", ← field? limit? fields "max_call_depth",
      ← field? limit? fields "max_steps", ← field? name? fields "entry_point"⟩
  | .list (strategy :: maxCallDepth :: maxSteps :: entryPoint :: _) => do
    return ⟨← Strategy.ofToml? strategy, ← limit? maxCallDepth, ← limit? maxSteps, ← name? entryPoint⟩
  | _ => none

/-- The section of a document, if it has one. -/
def ofDocument [Toml.Reader] (text : String) : Except SettingsError (Option Section) :=
  match Toml.Reader.parse? text with
  | some [] => .ok none
  | some [("evaluator", value)] =>
    match ofToml? value with
    | some s => .ok (some s)
    | none => .error .malformed
  | _ => .error .malformed

end Section
end MiniC
