import RecordArchive.Coordinator

/-!
# The report of a run

The totals as a table of two columns without borders, names on the left and
numbers flush right.
-/

namespace RecordArchive.Report

/-- The totals with their names, in the order of the report. -/
def rows (t : Tally) : List (String × Nat) :=
  [("events accepted", t.eventsAccepted), ("events dropped", t.eventsDropped),
    ("encode failures", t.encodeFailures), ("write failures", t.writeFailures),
    ("buffers flushed", t.buffersFlushed), ("events flushed", t.eventsFlushed),
    ("bytes flushed", t.bytesFlushed), ("buffers lost", t.buffersLost),
    ("events lost", t.eventsLost)]

/-- Spaces that bring a text of the given length to a width. -/
def fill (width length : Nat) : List Char := List.replicate (width - length) ' '

def width (texts : List (List Char)) : Nat := texts.foldl (fun w text => max w text.length) 0

/-- A line of the table.  Every cell has a blank on either side. -/
def line (nameWidth numberWidth : Nat) (name number : List Char) : List Char :=
  ' ' :: name ++ fill nameWidth name.length ++ ' ' :: ' ' :: fill numberWidth number.length ++
    number ++ [' ', '\n']

def table (t : Tally) : String :=
  let cells := (rows t).map fun (name, n) => (name.toList, Text.digits n)
  let nameWidth := width (cells.map (·.1))
  let numberWidth := width (cells.map (·.2))
  String.ofList (cells.flatMap fun (name, number) => line nameWidth numberWidth name number)

end RecordArchive.Report
