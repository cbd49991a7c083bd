import RecordArchive.Bytes
import RecordArchive.Dictionary
import RecordArchive.Store.Path

/-!
# A tree of files

Directories and files by their places, where a place is the list of names that
leads to it from the root.  Paths are followed name by name through directories
that exist, so that `..` leads out of a directory only when the path could enter
it.
-/

namespace RecordArchive

abbrev Place := List String

inductive Entry
  | directory
  | file (content : Bytes)

/-- Why a path leads nowhere or cannot be written. -/
inductive PathFault
  | notFound
  | notDirectory
  | isDirectory
  | nameTooLong
  | zeroCharacter
  deriving DecidableEq, Repr

def PathFault.message : PathFault → String
  | notFound => "no such file or directory"
  | notDirectory => "not a directory"
  | isDirectory => "is a directory"
  | nameTooLong => "file name too long"
  | zeroCharacter => "file name contained an unexpected NUL byte"

/-- Files and directories, and the place from which relative paths start. -/
structure FileTree where
  entries : Dictionary Place Entry := []
  here : Place := []

namespace FileTree

/-- Bytes that a name may have. -/
def greatestName : Nat := 255

/-- Bytes that a path may have. -/
def greatestPath : Nat := 4095

/-- What stands at a place.  The root is always a directory. -/
def entry? (t : FileTree) : Place → Option Entry
  | [] => some .directory
  | place => Dictionary.find? place t.entries

def put (t : FileTree) (place : Place) (entry : Entry) : FileTree :=
  { t with entries := Dictionary.insert place entry t.entries }

/-- Whether a path has a text that a path can have. -/
def checkText (path : List Char) : Except PathFault Unit :=
  if path.contains '\x00' then .error .zeroCharacter
  else if greatestPath < (String.ofList path).utf8ByteSize then .error .nameTooLong
  else .ok ()

def isTooLong (name : String) : Bool := greatestName < name.utf8ByteSize

/-- Where a path starts. -/
def start (t : FileTree) (path : List Char) : Place := if Path.isAbsolute path then [] else t.here

/-- The directory that a name leads to from a directory. -/
def enter (t : FileTree) (place : Place) (name : List Char) : Except PathFault Place :=
  if name.isEmpty || name == Path.self then .ok place
  else if name = Path.up then .ok place.dropLast
  else
    let name := String.ofList name
    match t.entry? (place ++ [name]) with
    | some .directory => .ok (place ++ [name])
    | some (.file _) => .error .notDirectory
    | none => .error (if isTooLong name then .nameTooLong else .notFound)

/-- The place of the file that a path names, which need not exist.  Everything
before it has to. -/
def locate (t : FileTree) (path : List Char) : Except PathFault Place := do
  checkText path
  let names := Text.segments '/' path
  let place ← names.dropLast.foldlM t.enter (t.start path)
  let name := names.getLast?.getD []
  if name.isEmpty || name == Path.self || name == Path.up then .error .isDirectory
  else if isTooLong (String.ofList name) then .error .nameTooLong
  else return place ++ [String.ofList name]

def read (t : FileTree) (path : String) : Except PathFault Bytes := do
  match t.entry? (← t.locate path.toList) with
  | some (.file content) => return content
  | some .directory => .error .isDirectory
  | none => .error .notFound

/-- Writes a file, in place of one that is there. -/
def write (t : FileTree) (path : List Char) (content : Bytes) : Except PathFault FileTree := do
  let place ← t.locate path
  match t.entry? place with
  | some .directory => .error .isDirectory
  | _ => return t.put place (.file content)

/-- Makes a directory where there is none and enters it. -/
def makeDirectory (t : FileTree) (place : Place) (name : List Char) :
    Except PathFault Place × FileTree :=
  match t.enter place name with
  | .ok place => (.ok place, t)
  | .error .notFound =>
    let place := place ++ [String.ofList name]
    (.ok place, t.put place .directory)
  | .error fault => (.error fault, t)

/-- Makes directories one inside the other.  Those made before a fault stay. -/
def makeDirectories (t : FileTree) (place : Place) :
    List (List Char) → Except PathFault Place × FileTree
  | [] => (.ok place, t)
  | name :: rest =>
    match t.makeDirectory place name with
    | (.ok place, t) => t.makeDirectories place rest
    | (.error fault, t) => (.error fault, t)

def makeParents (t : FileTree) (path : List Char) : Except PathFault Unit × FileTree :=
  let names := Path.parentComponents path
  match checkText (['/'].intercalate names) with
  | .error fault => (.error fault, t)
  | .ok () =>
    let (place, t) := t.makeDirectories (t.start path) names
    (place.map fun _ => (), t)

def isDirectory (t : FileTree) (path : String) : Bool :=
  let cs := path.toList
  match checkText cs, (Text.segments '/' cs).foldlM t.enter (t.start cs) with
  | .ok (), .ok _ => !cs.isEmpty
  | _, _ => false

/-- The files below a place by their paths from there, in order of these. -/
def filesBelow (t : FileTree) (place : Place) : Dictionary String Bytes :=
  Dictionary.ofList <| t.entries.filterMap fun
    | (p, .file content) =>
      if place.isPrefixOf p && place != p then
        some ("/".intercalate (p.drop place.length), content)
      else none
    | (_, .directory) => none

end FileTree

end RecordArchive
