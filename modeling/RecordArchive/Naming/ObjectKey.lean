import RecordArchive.Error
import RecordArchive.Naming.Template
import RecordArchive.Naming.Uuid
import RecordArchive.Text.Blank
import RecordArchive.Text.Segments

/-!
# Object keys

The key of an object: directories, each rendered from a template of its own and
followed by a slash, and a file name, which is a rendered template, a suffix
that makes it unique if one is wanted, a point and an extension.  All templates
are read when the namer is made, so that a bad one is found before any record
moves.
-/

namespace RecordArchive.Naming

/-- How keys are to be made. -/
structure KeySettings where
  pathPrefix : Option String := none
  namePattern : String := "events-%\x7byyyy-MM-dd'T'HH-mm-ss\x7d"
  uniqueSuffix : Bool := true
  deriving DecidableEq, Repr

/-- The extension of a codec's objects: its name, or `json` where it has none. -/
def extensionFor (codec : Option String) : String :=
  match codec with
  | some name => if Text.isBlank name then "json" else name
  | none => "json"

/-- Templates from which keys are made. -/
structure KeyNamer where
  directories : List Template
  name : Template
  extension : String
  uniqueSuffix : Bool
  deriving DecidableEq, Repr

/-- Reads a template, reporting a fault together with the template's text. -/
def readTemplate (cs : List Char) : Except ArchiveError Template :=
  match Template.parse cs with
  | .ok template => .ok template
  | .error fault => .error (.invalidTemplate (String.ofList cs) fault.message)

namespace KeyNamer

/-- The parts of a path that are not empty. -/
def directoryTexts (path : String) : List (List Char) :=
  (Text.segments '/' path.toList).filter (! ·.isEmpty)

/-- Reads the templates of the directories, from left to right, and then that of
the name. -/
def make (pathPrefix : Option String) (namePattern : String) (codec : Option String)
    (uniqueSuffix : Bool) : Except ArchiveError KeyNamer := do
  let directories ← (directoryTexts (pathPrefix.getD "")).mapM readTemplate
  if namePattern.toList.contains '/' then
    .error (.invalidTemplate namePattern
      "the name pattern may not contain '/'; put directories in path_prefix")
  else if Text.isBlank namePattern then
    .error (.invalidTemplate namePattern "the name pattern is empty")
  else do
    let name ← readTemplate namePattern.toList
    return ⟨directories, name, extensionFor codec, uniqueSuffix⟩

def ofSettings (settings : KeySettings) (codec : Option String) :
    Except ArchiveError KeyNamer :=
  make settings.pathPrefix settings.namePattern codec settings.uniqueSuffix

/-- The directories of a key, each followed by a slash. -/
def directoryPart (namer : KeyNamer) (now : Instant) : List Char :=
  namer.directories.flatMap fun directory => directory.render now ++ ['/']

/-- The suffix that tells apart the keys of one second. -/
def suffix (now : Instant) (id : Uuid) : List Char :=
  '-' :: Text.paddedInt 1 now.milliseconds ++ '-' :: id.text

def fileName (namer : KeyNamer) (now : Instant) (id : Uuid) : List Char :=
  namer.name.render now ++ (if namer.uniqueSuffix then suffix now id else []) ++
    '.' :: namer.extension.toList

/-- The key of an object stored at `now`. -/
def key (namer : KeyNamer) (now : Instant) (id : Uuid) : String :=
  String.ofList (namer.directoryPart now ++ namer.fileName now id)

end KeyNamer

end RecordArchive.Naming
