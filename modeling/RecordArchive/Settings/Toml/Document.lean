import RecordArchive.Settings.Toml.Definition
import RecordArchive.Settings.Toml.Scalar

/-!
# TOML documents

A document is read line by line: headers open tables, and pairs set keys in the
table opened last.
-/

namespace RecordArchive.Toml

open Text (Reader)

/-- Arrays and tables in braces that may stand one inside the other. -/
def greatestDepth : Nat := 79

/-- An array with items that `item` reads.  A comma may follow the last one. -/
def arrayOf (item : Reader Json) : Reader Json := do
  Reader.literal ['[']
  blanks
  let items ← Reader.optional <| Reader.separated item do
    blanks
    Reader.literal [',']
    blanks
  let _ ← Reader.optional do
    blanks
    if items.isSome then Reader.literal [','] else failure
  blanks
  Reader.literal [']']
  return .array (items.getD [])

def pair (item : Reader Json) : Reader (List String × Json) := do
  let path ← key
  Reader.literal ['=']
  spaces
  return (path, ← item)

/-- A table in braces with values that `item` reads. -/
def tableOf (item : Reader Json) : Reader Json := do
  Reader.literal ['{']
  spaces
  let pairs ← Reader.optional <| Reader.separated (pair item) do
    spaces
    Reader.literal [',']
  spaces
  Reader.literal ['}']
  let entries ← (pairs.getD []).foldlM (fun entries (path, v) => Definitions.add path v entries) []
  return .object (Definition.fieldsToJson entries)

/-- A value in which at most `depth` arrays and tables stand one inside the other. -/
def value : (depth : Nat) → Reader Json
  | 0 => scalar
  | depth + 1 => do
    match ← Reader.peek with
    | some '[' => arrayOf (value depth)
    | some '{' => tableOf (value depth)
    | _ => scalar

/-- What a line does. -/
inductive Line
  | table (path : List String)
  | element (path : List String)
  | pair (path : List String) (v : Json)
  | empty

def header (opening closing : List Char) : Reader (List String) := do
  Reader.literal opening
  let path ← key
  Reader.literal closing
  return path

/-- A line without its end. -/
def lineContent : Reader Line := do
  match ← Reader.peek with
  | some '[' =>
    Reader.either (do return .element (← header ['[', '['] [']', ']']))
      (do return .table (← header ['['] [']']))
  | none | some '#' | some '\n' | some '\r' => return .empty
  | _ => do
    let (path, v) ← pair (value greatestDepth)
    return .pair path v

/-- A line, with its end unless it is the last one. -/
def line : Reader Line := do
  spaces
  let found ← lineContent
  spaces
  comment
  if ← Reader.isAtEnd then return found
  else do
    lineEnd
    return found

/-- The tables defined so far and the path of the one opened last. -/
structure Reading where
  root : Definitions := []
  path : List String := []

namespace Reading

/-- Opens a table by a header. -/
def opening (open? : String → Definitions → Option Definitions) (path : List String)
    (r : Reading) : Option Reading :=
  match path.getLast? with
  | none => none
  | some key => do
    let root ← Definitions.within (open? key) path.dropLast r.root
    return ⟨root, path⟩

def step (r : Reading) : Line → Option Reading
  | .empty => some r
  | .table path => r.opening Definitions.openTable path
  | .element path => r.opening Definitions.openElement path
  | .pair path v => do
    let root ← Definitions.within (Definitions.add path v) r.path r.root
    return { r with root := root }

end Reading

/-- The lines of a document, which may begin with a byte order mark. -/
def lines? (text : String) : Option (List Line) :=
  let cs := match text.toList with
    | '\uFEFF' :: rest => rest
    | cs => cs
  Reader.whole (Reader.many line) cs

/-- Reads a document into a table. -/
def parse? (text : String) : Option Json := do
  let r ← (← lines? text).foldlM Reading.step {}
  return .object (Definition.fieldsToJson r.root)

end RecordArchive.Toml
