import RecordArchive.Proofs.Coordinator.Course
import RecordArchive.Proofs.Pipeline.Step
import RecordArchive.Store.Memory

/-!
# A small archive

A sink, a pipeline, and what may surround them, at which statements about runs are
tried out.
-/

namespace RecordArchive.Sample

/-- A sink that writes the messages of records and cuts a buffer off after one. -/
def sink : Sink where
  bucket := "logs"
  namer := ⟨[], ⟨"events".toList, none⟩, "log", true⟩
  limits := ⟨1, 1000, .ofSeconds 60, by decide, by decide⟩
  kind := .memory
  codec := .raw messageField
  retrier := .make 1 .zero (.zero false)
  policy := .skip

/-- The same with staging files. -/
def stagedSink : Sink := { sink with kind := .staged }

def world : World MemoryStore where
  clock := {}
  epoch := ⟨0, 0⟩
  store := {}
  staging := { directory := "/tmp" }
  chance := ⟨.zero, fun n => .ofNat n⟩

def record (message : String) : Record := .object [(messageField, .text message)]

/-- A record with the extreme whole numbers and with characters that are escaped. -/
def nested : Record :=
  .object [("", .array [.integer Json.leastInteger, .null, .text "\"\\\n\x07"]),
    ("a\r", .object [("b", .integer Json.greatestInteger), ("c", .boolean true)])]

/-! ## Circumstances -/

/-- Nothing goes wrong. -/
def calm : Circumstances MemoryStore := ⟨{}, {}, true, none⟩

/-- The store refuses the next put. -/
def failing : Circumstances MemoryStore := ⟨{}, { failures := 1 }, true, none⟩

/-- The run has been cancelled. -/
def cancelled : Circumstances MemoryStore := ⟨{ cancelAt := some .zero }, {}, true, none⟩

/-- A minute has passed, after which a buffer expires. -/
def later : Circumstances MemoryStore := { calm with clock := { now := .ofSeconds 61 } }

/-- A minute has passed, and the disk is full. -/
def laterFull : Circumstances MemoryStore := { later with room := some 0 }

/-! ## A pipeline -/

def pipeline : PipelineSettings := ⟨sink, 8, .ofSeconds 1, ⟨"ingest", "archive"⟩⟩

/-- Two records that come in one batch. -/
def listed : Source := .records [record "a", record "b"] 2

/-- A file with one line, of which no byte fits into a batch. -/
def narrow : Source := .lines [[97, lineFeed]] ⟨1000, 0⟩

/-- A batch of two records, of which the first is taken before the second is written, and then
both are accepted at once. -/
def interleaved : List Pipeline.Action := [.pull, .check, .write, .take, .check, .write, .gather,
  .hold, .check, .accept, .tick, .pull, .stop, .close, .finish]

def start (source : Source) : Passage MemoryStore :=
  { state := .start source 4 (.start world) }

end RecordArchive.Sample
