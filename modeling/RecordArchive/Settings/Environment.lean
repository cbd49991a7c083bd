import RecordArchive.Settings.Layer
import RecordArchive.Settings.Toml.Scalar
import RecordArchive.Text.Blank
import RecordArchive.Text.Segments

/-!
# Settings from environment variables

A variable whose name begins with the prefix sets the entry that the rest of its
name spells, with double underscores or points between levels.  Its value may be
written as a number, a list, a table and so on; what cannot be read as one of
these is a text as it stands.
-/

namespace RecordArchive.Environment

open Text (Reader)

/-- White space around the parts of a value. -/
def isSpace (c : Char) : Bool :=
  c == ' ' || c == '\t' || c == '\n' || c == '\r' || c == '\x0c'

/-- Characters that end a plain value. -/
def isSeparator (c : Char) : Bool :=
  c == ',' || c == '{' || c == '}' || c == '[' || c == ']'

def spaces : Reader Unit := do
  let _ ← Reader.span isSpace

/-- A whole number with digits, after its sign. -/
def natural? (cs : List Char) : Option Nat :=
  if cs.isEmpty || !cs.all Char.isDigit then none else some (Text.natOfDigits cs)

/-- A whole number of 64 bits, with a sign or without. -/
def integer? (cs : List Char) : Option Int :=
  match cs with
  | '-' :: rest => do
    let n ← natural? rest
    if n ≤ (1 <<< 63) then some (-(n : Int)) else none
  | '+' :: rest => (natural? rest).bind fun n => if n < (1 <<< 64) then some (n : Int) else none
  | _ => (natural? cs).bind fun n => if n < (1 <<< 64) then some (n : Int) else none

def splitSign : List Char → Bool × List Char
  | '-' :: rest => (true, rest)
  | '+' :: rest => (false, rest)
  | cs => (false, cs)

def power? : List Char → Option Int
  | [] => some 0
  | mark :: rest =>
    if mark = 'e' ∨ mark = 'E' then
      let (negative, ds) := splitSign rest
      (natural? ds).map fun n => if negative then -(n : Int) else n
    else none

/-- A number with a point, which has a digit on one side of it at least. -/
def pointNumber? (cs : List Char) : Option Binary64 :=
  let (negative, rest) := splitSign cs
  let whole := rest.takeWhile Char.isDigit
  match rest.dropWhile Char.isDigit with
  | '.' :: rest =>
    let fraction := rest.takeWhile Char.isDigit
    if whole.isEmpty && fraction.isEmpty then none
    else (power? (rest.dropWhile Char.isDigit)).map (Binary64.ofDigits negative whole fraction)
  | _ => none

def plainValue (cs : List Char) : Json :=
  match pointNumber? cs with
  | some x => .float x
  | none =>
    match integer? cs with
    | some n => .integer n
    | none => .text (String.ofList cs)

/-- The items of a list or a table, up to the closing character.  A comma may
follow the last one. -/
def items {α : Type} (closing : Char) (item : Reader α) : Reader (List α) := do
  let guarded : Reader α := do
    if (← Reader.peek) = some closing then failure else item
  let found ← Reader.optional (Reader.separated guarded (Reader.literal [',']))
  if found.isSome then
    let _ ← Reader.optional (Reader.literal [','])
  Reader.literal [closing]
  return found.getD []

def entryName : Reader String := do
  let cs ← match ← Reader.peek with
    | some '"' => Toml.basicText
    | _ => Reader.run Toml.isKeyChar
  return String.ofList cs

def entry (value : Reader Json) : Reader (String × Json) := do
  spaces
  let name ← entryName
  spaces
  Reader.literal ['=']
  spaces
  let v ← value
  spaces
  return (name, v)

def quotedCharacter : Reader Json := do
  Reader.literal ['\'']
  let c ← Reader.char fun _ => true
  Reader.literal ['\'']
  return .text (String.singleton c)

/-- A value in which at most `depth` lists and tables stand one inside the other. -/
def value : (depth : Nat) → Reader Json
  | 0 => failure
  | depth + 1 => do
    spaces
    let named : Reader Json :=
      Reader.either (do Reader.literal "true".toList; return .boolean true)
        (do Reader.literal "false".toList; return .boolean false)
    let other : Reader Json := do
      match ← Reader.peek with
      | some '{' =>
        Reader.literal ['{']
        return Json.ofFields (← items '}' (entry (value depth)))
      | some '[' =>
        Reader.literal ['[']
        return .array (← items ']' (value depth))
      | some '"' => return .text (String.ofList (← Toml.basicText))
      | some '\'' => quotedCharacter
      | _ => return plainValue (Text.trim (← Reader.span (! isSeparator ·)))
    let v ← Reader.either named other
    spaces
    return v

/-- What the text of a variable means. -/
def valueOf (text : String) : Json :=
  let cs := text.toList
  (Reader.whole (value (cs.length + 1)) cs).getD (.text text)

/-- What begins the name of a variable that holds a setting, in either case. -/
def namePrefix : List Char := ['b', 'k', 't', '_']

/-- Points in place of double underscores. -/
def splitLevels : List Char → List Char
  | '_' :: '_' :: rest => '.' :: splitLevels rest
  | c :: rest => c :: splitLevels rest
  | [] => []

/-- The levels of the entry that a variable sets. -/
def levels? (name : String) : Option (List String) :=
  let name := (Text.trim name.toList).map Char.toLower
  if namePrefix.isPrefixOf name then
    let levels := Text.segments '.' (splitLevels (name.drop namePrefix.length))
    if levels.any (·.isEmpty) then none else some (levels.map String.ofList)
  else none

/-- The settings of one variable: none but the entry that it sets. -/
def nested (v : Json) : List String → Json
  | [] => v
  | level :: rest => .object [(level, nested v rest)]

/-- The settings of a list of variables, in order.  Later ones win. -/
def settings (bindings : List (String × String)) : Json :=
  bindings.foldl (fun found (name, text) =>
    match levels? name with
    | some levels => Layer.merge found (nested (valueOf text) levels)
    | none => found) (.object [])

end RecordArchive.Environment
