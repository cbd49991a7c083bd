import RecordArchive.Record
import RecordArchive.Text.Blank
import RecordArchive.Text.Utf8

/-!
# Sources of records

Records come in batches, from the lines of a file or from a list of lines.  A
batch of a file ends when it holds enough records or when its lines have enough
bytes; blank lines are passed over and count for neither.  The first batch that
comes out empty is the end.
-/

namespace RecordArchive

/-- How large a batch may grow before it is handed on. -/
structure BatchLimits where
  records : Nat := 1000
  bytes : Nat := 1048576
  deriving DecidableEq, Repr

/-- Where records come from, as the settings name it. -/
inductive SourceSettings
  | file (path : String) (limits : BatchLimits)
  | listed (lines : List String) (limits : BatchLimits)
  deriving Repr

/-- Why a source yields nothing more. -/
inductive SourceFault
  | unopened (path : String)
  | unreadable (path : String) (line : Nat)
  deriving DecidableEq, Repr

def SourceFault.message : SourceFault → String
  | unopened path =>
    "💀 The door to '" ++ path ++
      "' would not budge. It might not exist, or we might not be allowed in."
  | unreadable path line => "💀 reading line " ++ toString line ++ " of '" ++ path ++ "'"

/-- A file that was opened: its bytes, or nothing if it cannot be read after all. -/
abbrev Contents := Option Bytes

/-- A source with what is left of it. -/
inductive Source
  | lines (rest : List Bytes) (limits : BatchLimits)
  | unreadable (path : String)
  | records (rest : List Record) (batch : Nat)

namespace Source

/-- The lines of a source for which none are listed. -/
def sampleLines : List String := [1, 2, 3, 4].map fun n => "\x7b\"doc\":" ++ toString n ++ "\x7d"

def ofLines (lines : List String) (limits : BatchLimits) : Source :=
  let lines := if lines.isEmpty then sampleLines else lines
  records (lines.map Record.ofLine) (max 1 limits.records)

/-- Opens a source.  `contents?` gives the contents of the files that exist.  Where no byte fits
into a batch nothing is ever read, and nobody finds out that a file cannot be. -/
def start (settings : SourceSettings) (contents? : String → Option Contents) :
    Except SourceFault Source :=
  match settings with
  | .listed found limits => .ok (ofLines found limits)
  | .file path limits =>
    match contents? path with
    | none => .error (.unopened path)
    | some none => .ok (if limits.bytes = 0 then lines [] limits else unreadable path)
    | some (some bytes) => .ok (lines bytes.lines limits)

/-- The text of a line of a file, without the characters that end it. -/
def lineText (line : Bytes) : String :=
  let cs := Utf8.decodeChars line
  String.ofList (cs.reverse.dropWhile fun c => c == '\n' || c == '\r').reverse

/-- Takes lines into a batch, which holds `taken` records and `size` bytes so
far, until one of its limits is reached. -/
def batchFrom (limits : BatchLimits) (taken size : Nat) : List Bytes → List Record × List Bytes
  | [] => ([], [])
  | line :: rest =>
    if taken < max 1 limits.records ∧ size < limits.bytes then
      let text := lineText line
      if Text.isBlank text then batchFrom limits taken size rest
      else
        let (more, rest) := batchFrom limits (taken + 1) (size + line.length) rest
        (Record.ofLine text :: more, rest)
    else ([], line :: rest)

/-- The next batch, or none at the end. -/
def next (s : Source) : Except SourceFault (Option (List Record) × Source) :=
  match s with
  | unreadable path => .error (.unreadable path 1)
  | lines rest limits =>
    let (batch, rest) := batchFrom limits 0 0 rest
    .ok (if batch.isEmpty then none else some batch, lines rest limits)
  | records rest size =>
    .ok (if rest.isEmpty then none else some (rest.take size), records (rest.drop size) size)

/-- What is left of a source: its lines or its records. -/
def left : Source → Nat
  | lines rest _ => rest.length
  | unreadable _ => 0
  | records rest _ => rest.length

theorem length_batchFrom (limits : BatchLimits) (taken size : Nat) (ls : List Bytes) :
    (batchFrom limits taken size ls).1.length + (batchFrom limits taken size ls).2.length ≤
      ls.length := by
  fun_induction batchFrom limits taken size ls with
  | case1 => simp
  | case2 taken size line rest h text hb ih =>
    simp only [List.length_cons]
    omega
  | case3 taken size line rest h text hb more rest' he ih =>
    simp only [he] at ih
    simp only [List.length_cons]
    omega
  | case4 => simp

end Source

end RecordArchive
