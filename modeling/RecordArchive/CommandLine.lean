import RecordArchive.Archive
import RecordArchive.Report

/-!
# The command line

The only argument is the path of the settings file.  When there is no such file
the settings come from the environment alone.  The exit status says whether
everything was archived, some buffers were lost, or the run failed.
-/

namespace RecordArchive.CommandLine

/-- The path of the settings file where none is given. -/
def defaultPath : String := "bkt.toml"

/-- How the program is called. -/
structure Call where
  arguments : List String
  environment : List (String × String)

def path (call : Call) : String := call.arguments.head?.getD defaultPath

/-- What a call leaves behind. -/
structure Ending where
  status : Nat
  output : String
  complaint : List String
  tree : FileTree

/-- The settings file of a call, if there is one.  That it cannot be looked for
is a failure. -/
def settingsFile (t : FileTree) (path : String) : Except PathFault (Option SettingsFile) :=
  match t.contents? path, t.read path with
  | some contents, _ => .ok (some ⟨path, some contents⟩)
  | none, .error .notFound => .ok none
  | none, .error fault => if path.isEmpty then .ok none else .error fault
  | none, .ok _ => .ok none

def failure (t : FileTree) (complaint : List String) : Ending := ⟨1, "", complaint, t⟩

def success (t : FileTree) (tally : Tally) : Ending :=
  { status := if 0 < tally.buffersLost then 2 else 0
    output := Report.table tally
    complaint :=
      if 0 < tally.buffersLost then
        ["💀 " ++ toString tally.buffersLost ++ " buffers (" ++ toString tally.eventsLost ++
          " events) could not be uploaded"]
      else []
    tree := t }

/-- Loads the settings and runs the archive. -/
def run (call : Call) (s : Surroundings) : Ending :=
  match settingsFile s.tree (path call) with
  | .error fault => failure s.tree [fault.message]
  | .ok file =>
    match ArchiveSettings.load file call.environment with
    | .error fault => failure s.tree [fault.context]
    | .ok settings =>
      match Archive.run settings s false false with
      | (.error fault, tree) => failure tree fault.chain
      | (.ok tally, tree) => success tree tally

end RecordArchive.CommandLine
