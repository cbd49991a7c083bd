import RecordArchive.Bytes
import RecordArchive.Dictionary
import RecordArchive.Error
import RecordArchive.Store.Path

/-!
# Staging files

Files in which buffers grow on disk before they are uploaded.  A writer gathers
small pieces and sends them to its file together.  A send is answered at once;
that it failed is reported by the next one, or when the writer finishes.
-/

namespace RecordArchive

/-- The directory of the staging files, the bytes that the disk has left, if it
is short of them, and the files that exist. -/
structure Staging where
  directory : String
  usable : Bool := true
  room : Option Nat := none
  created : Nat := 0
  files : Dictionary Nat Bytes := []

namespace Staging

/-- The path of a staging file. -/
def path (s : Staging) (id : Nat) : String :=
  String.ofList <| Path.join s.directory.toList
    ("bkt-".toList ++ (toString id).toList ++ ".buffer".toList)

def create (s : Staging) : Except ArchiveError Nat × Staging :=
  if s.usable then
    (.ok s.created,
      { s with created := s.created + 1, files := Dictionary.insert s.created [] s.files })
  else (.error (.write s.directory "no such file or directory"), s)

def content? (s : Staging) (id : Nat) : Option Bytes := Dictionary.find? id s.files

def delete (s : Staging) (id : Nat) : Staging := { s with files := Dictionary.erase id s.files }

/-- Writes at the end of a file, as much as there is room for.  Answers whether
all of it was written.  What is written to a file that has vanished is gone with
it. -/
def extend (s : Staging) (id : Nat) (piece : Bytes) : Bool × Staging :=
  let fits := match s.room with
    | none => piece.length
    | some room => min room piece.length
  let files := match s.content? id with
    | some content => Dictionary.insert id (content ++ piece.take fits) s.files
    | none => s.files
  (decide (fits = piece.length), { s with room := s.room.map (· - fits), files := files })

end Staging

/-- A writer to a staging file: the pieces gathered, and whether a send has
failed that is not reported yet. -/
structure StagingWriter where
  file : Nat
  pending : Bytes := []
  failed : Bool := false

namespace StagingWriter

/-- Bytes that a writer gathers at most. -/
def capacity : Nat := 8192

def failure (w : StagingWriter) (s : Staging) : ArchiveError :=
  .write (s.path w.file) "no space left on device"

/-- Sends bytes to the file, or reports that an earlier send failed. -/
def send (w : StagingWriter) (piece : Bytes) (s : Staging) :
    Except ArchiveError StagingWriter × Staging :=
  if w.failed then (.error (w.failure s), s)
  else
    let (written, s) := s.extend w.file piece
    (.ok { w with failed := !written }, s)

/-- Sends what has been gathered, if there is anything. -/
def sendPending (w : StagingWriter) (s : Staging) : Except ArchiveError StagingWriter × Staging :=
  if w.pending.isEmpty then (.ok w, s) else { w with pending := [] }.send w.pending s

/-- Gathers a piece, or sends it by itself when it is as long as the capacity. -/
def gather (w : StagingWriter) (piece : Bytes) (s : Staging) :
    Except ArchiveError StagingWriter × Staging :=
  if capacity ≤ piece.length then w.send piece s
  else (.ok { w with pending := w.pending ++ piece }, s)

/-- Writes a piece.  What has been gathered is sent first when the piece does not
fit beside it. -/
def write (w : StagingWriter) (piece : Bytes) (s : Staging) :
    Except ArchiveError StagingWriter × Staging :=
  if piece.isEmpty then (.ok w, s)
  else if capacity < w.pending.length + piece.length then
    match w.sendPending s with
    | (.error e, s) => (.error e, s)
    | (.ok w, s) => w.gather piece s
  else w.gather piece s

/-- Sends what is left and learns whether everything was written. -/
def finish (w : StagingWriter) (s : Staging) : Except ArchiveError Unit × Staging :=
  match w.sendPending s with
  | (.error e, s) => (.error e, s)
  | (.ok w, s) => (if w.failed then .error (w.failure s) else .ok (), s)

end StagingWriter

end RecordArchive
