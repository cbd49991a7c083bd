import RecordArchive.Staging
import RecordArchive.Threshold

/-!
# Buffers

Encoded records that wait to be uploaded together, in memory or in a staging
file.  Every record in a buffer ends with a line feed.  A buffer whose append
failed may hold a part of a record, and is not to be used again.
-/

namespace RecordArchive

/-- Where buffers keep their records. -/
inductive BufferKind
  | memory
  | staged
  deriving DecidableEq, Repr

/-- The records of a buffer: in memory, the last one first, or in a file. -/
inductive Holding
  | memory (reversed : List Bytes)
  | staged (writer : StagingWriter)

structure Buffer where
  holding : Holding
  size : Nat := 0
  count : Nat := 0
  createdAt : Duration

namespace Buffer

/-- A new buffer, which holds nothing. -/
def create (kind : BufferKind) (now : Duration) (s : Staging) :
    Except ArchiveError Buffer × Staging :=
  match kind with
  | .memory => (.ok { holding := .memory [], createdAt := now }, s)
  | .staged =>
    let (file, s) := s.create
    (file.map fun file => { holding := .staged { file := file }, createdAt := now }, s)

def snapshot (b : Buffer) (now : Duration) : Snapshot := ⟨b.count, b.size, now - b.createdAt⟩

/-- The line feed that a record still needs. -/
def separator (record : Bytes) : Bytes := if record.endsLine then [] else [lineFeed]

/-- Puts a record, and a line feed if it does not end in one, at the end of what
is held. -/
def appendTo (h : Holding) (record : Bytes) (s : Staging) :
    Except ArchiveError Holding × Staging :=
  match h with
  | .memory reversed => (.ok (.memory (record.terminated :: reversed)), s)
  | .staged writer =>
    match writer.write record s with
    | (.error e, s) => (.error e, s)
    | (.ok writer, s) =>
      let (writer, s) := writer.write (separator record) s
      (writer.map .staged, s)

/-- Appends a record, and a line feed if it does not end in one. -/
def append (b : Buffer) (record : Bytes) (s : Staging) : Except ArchiveError Buffer × Staging :=
  let (holding, s) := appendTo b.holding record s
  (holding.map fun holding => { b with
    holding := holding
    size := b.size + record.length + (separator record).length
    count := b.count + 1 }, s)

/-- Releases what a buffer holds outside memory. -/
def discard (b : Buffer) (s : Staging) : Staging :=
  match b.holding with
  | .memory _ => s
  | .staged writer => s.delete writer.file

/-- Makes a buffer ready for its upload. -/
def finish (b : Buffer) (s : Staging) : Except ArchiveError Unit × Staging :=
  match b.holding with
  | .memory _ => (.ok (), s)
  | .staged writer => writer.finish s

theorem append_separator (record : Bytes) : record ++ separator record = record.terminated := by
  unfold separator Bytes.terminated
  split <;> simp

end Buffer

end RecordArchive
