import MiniC.Settings.Document
import MiniC.Settings.Variables
import MiniC.FileTree

/-!
# Loading settings from files

The settings file of a directory is the one in it or else in the nearest parent
of its path that has one. Where there is none, the settings are the usual ones.
-/

namespace MiniC
variable [Toml.Reader]

/-- The name of settings files. -/
def settingsFileName : String := "cwalk.toml"

/-- Loaded settings, the section that was in the file, and the directory of the
    file, if there was one. -/
structure Loaded where
  settings : Settings
  written : Option Section
  root : Option Path

namespace FileTree

/-- Reads the section in a settings file. -/
def readSection (files : FileTree) (p : Path) : Except SettingsError (Option Section) :=
  match files.locate p with
  | .error .missing => .error (.notFound p.render)
  | .error .notADirectory => .error (.unreadable .notADirectory)
  | .ok (.directory _) => .error (.unreadable .isDirectory)
  | .ok (.file content) =>
    match String.fromUTF8? content with
    | some text => Section.ofDocument text
    | none => .error (.unreadable .notText)

/-- The nearest directory upwards of a path, itself included, that has a settings
    file. The search ends because every parent has fewer parts. -/
def settingsRoot? (files : FileTree) (p : Path) : Option Path :=
  if files.exists (p.join settingsFileName) then some p
  else
    match _ : p.parent? with
    | some parent => settingsRoot? files parent
    | none => none
termination_by p.parts.length
decreasing_by exact Path.length_parent?_lt ‹_›

end FileTree

namespace Loader

/-- Loads the settings that govern a directory. -/
def loadDirectory (l : Loader) (files : FileTree) (env : Variables) (start : Path) : Except SettingsError Loaded := do
  let root := files.settingsRoot? start
  let written ← match root with
    | some root => files.readSection (root.join settingsFileName)
    | none => pure none
  return ⟨← l.resolve written env, written, root⟩

/-- Loads the settings in a file. -/
def loadFile (l : Loader) (files : FileTree) (env : Variables) (p : Path) : Except SettingsError Loaded := do
  let written ← files.readSection p
  return ⟨← l.resolve written env, written, p.parent?⟩

end Loader
end MiniC
