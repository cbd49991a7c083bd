import RecordArchive.Sink

/-!
# The coordinator of a sink

Takes batches of records, writes them into the active buffer one after the
other, and uploads that buffer whenever its limits ask for it before another
record, when it has grown too old, and at the end.  A call fails only when an
upload is cancelled between attempts; a buffer that cannot be uploaded or
written is lost, counted, and replaced.
-/

namespace RecordArchive

/-- Running totals of a sink. -/
structure Tally where
  eventsAccepted : Nat := 0
  eventsDropped : Nat := 0
  encodeFailures : Nat := 0
  writeFailures : Nat := 0
  buffersFlushed : Nat := 0
  buffersLost : Nat := 0
  eventsFlushed : Nat := 0
  eventsLost : Nat := 0
  bytesFlushed : Nat := 0
  deriving DecidableEq, Repr

/-- What became of one batch. -/
structure Summary where
  appended : Nat := 0
  dropped : Nat := 0
  flushes : Nat := 0
  encodeFailures : Nat := 0
  deriving DecidableEq, Repr

/-- The active buffer, if there is one, the totals, and what the sink works on. -/
structure Coordinator (σ : Type) where
  current : Option Buffer := none
  tally : Tally := {}
  world : World σ

namespace Tally

/-- Counts a record that could not be written, and the records dropped with it. -/
def refuse (t : Tally) (dropped : Nat) : Tally :=
  { t with encodeFailures := t.encodeFailures + 1, eventsDropped := t.eventsDropped + dropped }

def flushed (t : Tally) (b : Buffer) : Tally :=
  { t with
    buffersFlushed := t.buffersFlushed + 1
    eventsFlushed := t.eventsFlushed + b.count
    bytesFlushed := t.bytesFlushed + b.size }

def lost (t : Tally) (b : Buffer) : Tally :=
  { t with buffersLost := t.buffersLost + 1, eventsLost := t.eventsLost + b.count }

/-- Counts a failed write, and the buffer abandoned for it if that held anything. -/
def abandoned (t : Tally) (b : Buffer) : Tally :=
  let t := { t with writeFailures := t.writeFailures + 1 }
  if 0 < b.count then t.lost b else t

end Tally

namespace Summary

def refuse (s : Summary) (dropped : Nat) : Summary :=
  { s with encodeFailures := s.encodeFailures + 1, dropped := s.dropped + dropped }

/-- Counts a record that was or was not appended. -/
def add (s : Summary) (appended : Bool) : Summary :=
  if appended then { s with appended := s.appended + 1 } else { s with dropped := s.dropped + 1 }

/-- Counts a flush, if there was one. -/
def cut (s : Summary) (flushed : Bool) : Summary :=
  if flushed then { s with flushes := s.flushes + 1 } else s

end Summary

namespace Coordinator

variable {σ : Type}

def start (world : World σ) : Coordinator σ := { world := world }

def now (c : Coordinator σ) : Duration := c.world.clock.now

def snapshot? (c : Coordinator σ) : Option Snapshot := c.current.map (·.snapshot c.now)

section Flushing

variable [ObjectStore σ]

/-- Uploads a buffer that is no longer active under a new key, and counts the
outcome.  An empty buffer is dropped. -/
def retire (sink : Sink) (b : Buffer) (c : Coordinator σ) :
    Except ArchiveError Unit × Coordinator σ :=
  if b.count = 0 then
    (.ok (), { c with world := { c.world with staging := b.discard c.world.staging } })
  else
    let now := c.world.instant
    let (id, world) := c.world.drawId
    match world.flush sink.retrier ⟨sink.bucket, sink.namer.key now id⟩ b with
    | (.error e, world) => (.error e, { c with world := world })
    | (.ok uploaded, world) =>
      (.ok (), { c with
        world := world
        tally := if uploaded then c.tally.flushed b else c.tally.lost b })

/-- Retires the active buffer if there is one and it is due.  Answers whether it
was. -/
def flushWhen (sink : Sink) (due : Snapshot → Bool) (c : Coordinator σ) :
    Except ArchiveError Bool × Coordinator σ :=
  match c.current with
  | none => (.ok false, c)
  | some b =>
    if due (b.snapshot c.now) then
      match retire sink b { c with current := none } with
      | (.error e, c) => (.error e, c)
      | (.ok (), c) => (.ok true, c)
    else (.ok false, c)

end Flushing

/-- The active buffer, which is taken, or a new one. -/
def takeBuffer (sink : Sink) (c : Coordinator σ) : Except ArchiveError Buffer × Coordinator σ :=
  match c.current with
  | some b => (.ok b, { c with current := none })
  | none =>
    let (b, staging) := Buffer.create sink.kind c.now c.world.staging
    (b, { c with world := { c.world with staging := staging } })

/-- Appends a record to the active buffer.  A buffer whose append fails is
abandoned without an upload.  Answers whether the record was appended. -/
def append (sink : Sink) (record : Bytes) (c : Coordinator σ) : Bool × Coordinator σ :=
  match c.takeBuffer sink with
  | (.error _, c) =>
    (false, { c with tally := { c.tally with writeFailures := c.tally.writeFailures + 1 } })
  | (.ok b, c) =>
    match b.append record c.world.staging with
    | (.ok b, staging) =>
      (true, { c with current := some b, world := { c.world with staging := staging } })
    | (.error _, staging) =>
      (false, { c with
        tally := c.tally.abandoned b
        world := { c.world with staging := b.discard staging } })

/-- Appends a record and counts it as accepted or dropped. -/
def add (sink : Sink) (record : Bytes) (c : Coordinator σ) : Bool × Coordinator σ :=
  match c.append sink record with
  | (true, c) =>
    (true, { c with tally := { c.tally with eventsAccepted := c.tally.eventsAccepted + 1 } })
  | (false, c) =>
    (false, { c with tally := { c.tally with eventsDropped := c.tally.eventsDropped + 1 } })

def refuse (dropped : Nat) (c : Coordinator σ) : Coordinator σ :=
  { c with tally := c.tally.refuse dropped }

variable [ObjectStore σ]

/-- Takes the rest of a batch, given what became of the records before. -/
def acceptFrom (sink : Sink) (summary : Summary) :
    List Record → Coordinator σ → Except ArchiveError Summary × Coordinator σ
  | [], c => (.ok summary, c)
  | record :: rest, c =>
    match sink.codec.encode record with
    | .error _ =>
      match sink.policy with
      | .abort => (.ok (summary.refuse (rest.length + 1)), c.refuse (rest.length + 1))
      | .skip => acceptFrom sink (summary.refuse 1) rest (c.refuse 1)
    | .ok bytes =>
      match c.flushWhen sink sink.limits.shouldFlush with
      | (.error e, c) => (.error e, c)
      | (.ok flushed, c) =>
        let (appended, c) := c.add sink bytes
        acceptFrom sink ((summary.cut flushed).add appended) rest c

def accept (sink : Sink) (records : List Record) (c : Coordinator σ) :
    Except ArchiveError Summary × Coordinator σ :=
  acceptFrom sink {} records c

/-- Retires the active buffer if it has grown too old. -/
def flushExpired (sink : Sink) (c : Coordinator σ) : Except ArchiveError Bool × Coordinator σ :=
  c.flushWhen sink sink.limits.isExpired

/-- Retires the active buffer and answers the totals. -/
def shutdown (sink : Sink) (c : Coordinator σ) : Except ArchiveError Tally × Coordinator σ :=
  match c.flushWhen sink fun _ => true with
  | (.error e, c) => (.error e, c)
  | (.ok _, c) => (.ok c.tally, c)

end Coordinator

end RecordArchive
