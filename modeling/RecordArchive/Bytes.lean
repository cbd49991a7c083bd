/-!
# Bytes and lines

Encoded records, buffers and stored objects are lists of bytes.  A line ends
with a line feed, which belongs to it; only the last line of a text may lack one.
-/

namespace RecordArchive

abbrev Bytes := List UInt8

/-- The byte that ends every record of a buffer and every line of a file. -/
def lineFeed : UInt8 := 10

namespace Bytes

def endsLine (bytes : Bytes) : Bool := bytes.getLast? == some lineFeed

/-- A record as it stands in a buffer: with a line feed added unless it already
ends in one. -/
def terminated (bytes : Bytes) : Bytes :=
  if bytes.endsLine then bytes else bytes ++ [lineFeed]

/-- Puts a byte in front of the first line, or, if it ends a line, in front of
them as a line of its own. -/
def addToLines (byte : UInt8) (lines : List Bytes) : List Bytes :=
  if byte == lineFeed then [byte] :: lines
  else match lines with
    | [] => [[byte]]
    | line :: more => (byte :: line) :: more

/-- The lines of a text, each with its line feed.  No line is empty, and only
the last may lack its line feed. -/
def lines (bytes : Bytes) : List Bytes := bytes.foldr addToLines []

@[simp] theorem lines_nil : lines [] = [] := rfl

@[simp] theorem lines_cons (byte : UInt8) (rest : Bytes) :
    lines (byte :: rest) = addToLines byte (lines rest) := rfl

theorem endsLine_terminated (bytes : Bytes) : (terminated bytes).endsLine = true := by
  unfold terminated
  split
  · assumption
  · simp [endsLine]

end Bytes

end RecordArchive
