import RecordArchive.Codec
import RecordArchive.Naming.ObjectKey
import RecordArchive.World

/-!
# Sinks

How a sink is set up: where its objects go, how they are named, how records are
written, when buffers are cut, and how uploads are retried.
-/

namespace RecordArchive

/-- What becomes of the rest of a batch when one record cannot be written. -/
inductive EncodePolicy
  | abort
  | skip
  deriving DecidableEq, Repr

/-- A sink as its settings describe it. -/
structure SinkSettings where
  bucket : String
  keys : Naming.KeySettings := {}
  kind : BufferKind := .memory
  stagingDirectory : Option String := none
  limits : LimitSettings
  uploadAttempts : Nat := 5
  connectionAttempts : Nat := 5
  delayMilliseconds : Nat := 5000
  jitter : Binary64 := .zero false
  codec : Codec := .ndjson
  policy : EncodePolicy := .abort

/-- A sink that has been checked. -/
structure Sink where
  bucket : String
  namer : Naming.KeyNamer
  limits : Limits
  kind : BufferKind
  codec : Codec
  retrier : Retrier
  policy : EncodePolicy

namespace SinkSettings

/-- The directory for staging files where none is set. -/
def temporaryDirectory : String := "/tmp"

def staging (settings : SinkSettings) : String :=
  settings.stagingDirectory.getD temporaryDirectory

def checkBucket (settings : SinkSettings) : Except ArchiveError Unit :=
  if Text.isBlank settings.bucket then .error (.configuration "sink bucket must not be empty")
  else .ok ()

end SinkSettings

namespace Sink

/-- Sets up a sink.  Of several mistakes the one in the bucket's name is reported
first, then one in a template, then one in a limit. -/
def ofSettings (settings : SinkSettings) : Except ArchiveError Sink := do
  settings.checkBucket
  let namer ← Naming.KeyNamer.ofSettings settings.keys (some settings.codec.name)
  let limits ← Limits.ofSettings settings.limits
  return {
    bucket := settings.bucket
    namer := namer
    limits := limits
    kind := settings.kind
    codec := settings.codec
    retrier := .make settings.uploadAttempts (.ofMilliseconds settings.delayMilliseconds)
      settings.jitter
    policy := settings.policy }

end Sink

end RecordArchive
