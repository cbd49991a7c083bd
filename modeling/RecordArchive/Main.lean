import RecordArchive.CommandLine
import Std.Time.DateTime.Timestamp

/-!
# The program

Reads what a call needs from the machine, lets `CommandLine.run` decide, and
writes the new files, the report and the complaints.
-/

namespace RecordArchive.Main

/-- What stands at a path on the machine. -/
inductive Found
  | absent
  | directory
  | file (content : Bytes)

def look (path : String) : IO Found := do
  try
    return .file (← IO.FS.readBinFile path).data.toList
  catch
    | .inappropriateType .. => return .directory
    | _ => return .absent

/-- Adds the directories on the way to a place, and what stands there, to a tree. -/
def addPath (t : FileTree) (path : String) : IO FileTree := do
  let names := (Path.components path.toList).map String.ofList
  let place := t.start path.toList ++ names
  let mut t := t
  for n in List.range (place.length + 1) do
    let place := place.take n
    match ← look ("/" ++ "/".intercalate place) with
    | .directory => t := t.put place .directory
    | .file content => t := t.put place (.file content)
    | .absent => pure ()
  return t

def environment : IO (List (String × String)) := do
  let bytes ← IO.FS.readBinFile "/proc/self/environ"
  let entries := Text.segments '\x00' (Utf8.decodeChars bytes.data.toList)
  return entries.filterMap fun entry =>
    match entry.dropWhile (· != '=') with
    | _ :: value => some (String.ofList (entry.takeWhile (· != '=')), String.ofList value)
    | [] => none

/-- A number made of random bytes. -/
def randomNumber : IO Nat := do
  let bytes ← IO.getRandomBytes 16
  return bytes.data.toList.foldl (fun n byte => n * 256 + byte.toNat) 0

/-- Identifiers and fractions that follow from one random number. -/
def chance : IO Chance := do
  let seed ← randomNumber
  let stride := 2 * (← randomNumber) + 1
  return {
    fractions := {
      parts := fun n => (seed + n * stride) % (1 <<< 53)
      parts_le := fun _ => Nat.le_of_lt (Nat.mod_lt _ (by decide)) }
    ids := fun n => .ofNat (seed + n * stride) }

def instant : IO Instant := do
  let now ← Std.Time.Timestamp.now
  let nanoseconds := now.toNanosecondsSinceUnixEpoch.toInt
  return ⟨nanoseconds / 1000000000, (nanoseconds % 1000000000).toNat⟩

/-- The paths that a run with the given settings looks at. -/
def paths (settings : ArchiveSettings) : List String :=
  let source := match settings.source with
    | .file path _ => [path]
    | .listed _ _ => []
  let root := match settings.store with
    | .directory root => [root]
    | _ => []
  settings.sink.staging :: source ++ root

/-- Everything that a call looks at. -/
def surroundings (call : CommandLine.Call) : IO Surroundings := do
  let here := (Path.components (toString (← IO.currentDir)).toList).map String.ofList
  let path := CommandLine.path call
  let mut tree ← addPath { here := here } path
  if let .ok file := CommandLine.settingsFile tree path then
    if let .ok settings := ArchiveSettings.load file call.environment then
      for path in paths settings do
        tree ← addPath tree path
  return ⟨tree, ← instant, ← chance⟩

/-- Writes the files of a tree that another one does not hold. -/
def writeNew (before after : FileTree) : IO Unit := do
  for (place, entry) in after.entries do
    if let .file content := entry then
      let isNew := match before.entry? place with
        | some (.file old) => old != content
        | _ => true
      if isNew then
        IO.FS.createDirAll ("/" ++ "/".intercalate place.dropLast)
        IO.FS.writeBinFile ("/" ++ "/".intercalate place) ⟨content.toArray⟩

def run (arguments : List String) : IO UInt32 := do
  let call : CommandLine.Call := ⟨arguments, ← environment⟩
  let s ← surroundings call
  let ending := CommandLine.run call s
  writeNew s.tree ending.tree
  IO.print ending.output
  for line in ending.complaint do
    IO.eprintln line
  return UInt32.ofNat ending.status

end RecordArchive.Main

def main (arguments : List String) : IO UInt32 := RecordArchive.Main.run arguments
