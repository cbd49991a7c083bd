import RecordArchive.Error
import RecordArchive.Json.Printer
import RecordArchive.Record
import RecordArchive.Text.Utf8

/-!
# Codecs

How a record is written into a buffer: as a line of compact JSON, or as the text
of one of its fields.  The codec's name is also the extension of its objects.
-/

namespace RecordArchive

inductive Codec
  | ndjson
  | raw (field : String)
  deriving DecidableEq, Repr

/-- Why a record cannot be written as the text of a field. -/
inductive EncodeFault
  | missing (field : String)
  | notText (field : String) (found : Json)

namespace EncodeFault

def message : EncodeFault → String
  | missing field => "field '" ++ field ++ "' is missing"
  | notText field found => "field '" ++ field ++ "' is not a string (found " ++ found.print ++ ")"

end EncodeFault

namespace Codec

def name : Codec → String
  | ndjson => "ndjson"
  | raw _ => "log"

/-- The text of a record, in full, before it is ended as a line. -/
def text (codec : Codec) (record : Record) : Except EncodeFault String :=
  match codec with
  | ndjson => .ok record.print
  | raw field =>
    match record.field? field with
    | none => .error (.missing field)
    | some (.text s) => .ok s
    | some found => .error (.notText field found)

/-- The bytes of a record, ended by a line feed. -/
def encode (codec : Codec) (record : Record) : Except EncodeFault Bytes :=
  (codec.text record).map fun s => (Utf8.encode s).terminated

def failure (codec : Codec) (fault : EncodeFault) : ArchiveError :=
  .encoding codec.name fault.message

theorem endsLine_encode {codec : Codec} {record : Record} {bytes : Bytes}
    (h : codec.encode record = .ok bytes) : bytes.endsLine = true := by
  unfold encode at h
  cases ht : codec.text record with
  | error fault => simp [ht, Except.map] at h
  | ok s =>
    simp only [ht, Except.map, Except.ok.injEq] at h
    exact h ▸ Bytes.endsLine_terminated _

end Codec

end RecordArchive
