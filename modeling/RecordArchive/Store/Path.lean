import RecordArchive.Text.Segments

/-!
# Paths

The text of a path: names between slashes.  Joining an absolute path to another
replaces it, and joining the empty path leaves a slash at the end.
-/

namespace RecordArchive.Path

def isAbsolute : List Char → Bool
  | '/' :: _ => true
  | _ => false

/-- The path `part` as seen from `base`. -/
def join (base part : List Char) : List Char :=
  if isAbsolute part || base.isEmpty then part
  else if base.getLast? = some '/' then base ++ part
  else base ++ '/' :: part

/-- The name of the directory itself. -/
def self : List Char := ['.']

/-- The name of the directory above. -/
def up : List Char := ['.', '.']

/-- The names of a path, without empty ones and those of the directory itself. -/
def components (path : List Char) : List (List Char) :=
  (Text.segments '/' path).filter fun name => !name.isEmpty && name != self

/-- The names of the directory that holds the last component of a path. -/
def parentComponents (path : List Char) : List (List Char) := (components path).dropLast

end RecordArchive.Path
