import RecordArchive.Json.Parser

/-!
# Records

A record is a JSON value, and nearly always an object.  A line of text that
holds a JSON object is that object; any other line becomes an object with the
line as its message, so no line is too informal to be archived.
-/

namespace RecordArchive

/-- The field that holds the text of a line that is no JSON object. -/
def messageField : String := "message"

abbrev Record := Json

namespace Record

def ofLine (line : String) : Record :=
  match Json.parse? line with
  | some (.object fields) => .object fields
  | _ => .object [(messageField, .text line)]

theorem isObject_ofLine (line : String) : (ofLine line).isObject = true := by
  unfold ofLine
  split <;> rfl

end Record

end RecordArchive
