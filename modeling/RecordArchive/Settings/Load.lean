import RecordArchive.Settings.Archive
import RecordArchive.Settings.Environment
import RecordArchive.Settings.Toml.Document

/-!
# Loading settings

Settings are loaded from environment variables and from a file, which wins over
them.  A file that does not exist is an empty layer.
-/

namespace RecordArchive

/-- A settings file: its path and, if it exists, its contents. -/
structure SettingsFile where
  path : String
  contents : Option Contents

/-- Why no settings were loaded. -/
inductive LoadFault
  | unreadable (path : Option String)
  | invalid (error : ArchiveError)
  deriving DecidableEq, Repr

namespace LoadFault

/-- What was being done when loading failed. -/
def context : LoadFault → String
  | unreadable (some path) =>
    "💀 Failed to parse configuration from file '" ++ path ++
      "' and environment variables (BKT_*). The file exists in our hearts, but apparently not on disk."
  | unreadable none =>
    "💀 Failed to parse configuration from environment variables (BKT_*). No file was provided, this one's all on the environment. Classic."
  | invalid _ =>
    "💀 Configuration parsed fine but makes no sense. Fix it before a single record moves."

end LoadFault

namespace SettingsFile

def layer? (file : SettingsFile) : Option Json :=
  match file.contents with
  | none => some (.object [])
  | some contents => do Toml.parse? (← Utf8.text? (← contents))

end SettingsFile

namespace ArchiveSettings

/-- Loads settings.  The variables count in the order of their names. -/
def load (file : Option SettingsFile) (bindings : List (String × String)) :
    Except LoadFault ArchiveSettings := do
  let environment := Environment.settings (Dictionary.ofList bindings)
  let fault := LoadFault.unreadable (file.map (·.path))
  let layer ← match file with
    | none => .ok (.object [])
    | some file =>
      match file.layer? with
      | some layer => .ok layer
      | none => .error fault
  match Settings.archive? .layered (Layer.merge environment layer) with
  | none => .error fault
  | some settings =>
    match settings.validate with
    | .error e => .error (.invalid e)
    | .ok () => return settings

end ArchiveSettings

end RecordArchive
