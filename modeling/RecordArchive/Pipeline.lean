import RecordArchive.Connector.Exchange
import RecordArchive.Coordinator
import RecordArchive.Source

/-!
# The pipeline from a source to a sink

Two workers with a bounded queue between them.  One reads batches from the source
and writes their records into the queue; the other gathers batches from the queue
and hands them to the coordinator.  A supervisor stops the connector and closes
the queue when one of the workers has ended or a stop is asked for, and the
sink's worker then drains the queue and flushes the last buffer.

What can happen next is given by `step?`, one small action at a time, so that any
list of actions that are possible one after the other is a run.  A call to the
coordinator is one action, since it touches neither the queue nor the source.
`run` is one schedule: the source goes as far as it can, and then the sink takes
its turn.
-/

namespace RecordArchive

/-- Why a run failed. -/
inductive RunFault
  /-- No sink could be set up. -/
  | unusable (error : ArchiveError)
  /-- The source could not be opened. -/
  | unopened (fault : SourceFault)
  /-- The source could not be read on. -/
  | unread (fault : SourceFault)
  /-- A batch could not be written into the queue. -/
  | notForwarded (error : ArchiveError)
  /-- A batch was cut short. -/
  | notAccepted (error : ArchiveError)
  /-- An upload of a buffer that had grown too old was cut short. -/
  | notExpired (error : ArchiveError)
  /-- The last upload was cut short. -/
  | notFlushed (error : ArchiveError)
  deriving DecidableEq, Repr

namespace RunFault

/-- What went wrong, from the outside to the cause. -/
def chain (fault : RunFault) : List String :=
  "💀 bkt run failed" :: match fault with
  | unusable e => ["💀 the sink configuration is not usable", e.message]
  | unopened fault => ["💀 could not open the source", fault.message]
  | unread fault => ["💀 SourceWorker could not read the next batch", fault.message]
  | notForwarded e => ["💀 SourceWorker could not hand a batch to the connector", e.message]
  | notAccepted e => ["💀 SinkWorker: the coordinator gave up on a batch", e.message]
  | notExpired e => ["💀 SinkWorker: flushing an expired buffer failed", e.message]
  | notFlushed e => ["💀 SinkWorker failed to flush the final buffer", e.message]

end RunFault

/-- Where the source's worker stands. -/
inductive Intake
  /-- It is about to read a batch. -/
  | reading (source : Source)
  /-- It is about to check the connector for the next record. -/
  | checking (rest : List Record) (source : Source)
  /-- It has a record to write before a deadline. -/
  | writing (record : Record) (rest : List Record) (source : Source) (deadline : Duration)
  | ended (outcome : Except RunFault Unit)

/-- Where the sink's worker stands. -/
inductive Outlet
  /-- It waits for a record, or to look whether the buffer is too old. -/
  | waiting
  /-- It has the first records of a batch. -/
  | gathering (batch : List Record)
  /-- It has a batch. -/
  | holding (batch : List Record)
  | ended (outcome : Except RunFault Unit)

/-- How a pipeline is set up. -/
structure PipelineSettings where
  sink : Sink
  batchSize : Nat
  patience : Duration
  names : PipelineNames

structure Pipeline (σ : Type) where
  intake : Intake
  queue : Queue Record
  stopped : Bool := false
  outlet : Outlet := .waiting
  coordinator : Coordinator σ

/-- What can happen. -/
inductive Pipeline.Action
  /-- The source's worker reads a batch. -/
  | pull
  /-- The source's worker checks the connector. -/
  | check
  /-- A record gets into the queue. -/
  | write
  /-- The deadline of a write has come. -/
  | expire
  /-- A write finds the queue closed. -/
  | refuse
  /-- The sink's worker takes the first record of a batch from the queue. -/
  | take
  /-- The sink's worker takes another record. -/
  | gather
  /-- The sink's worker finds its batch full, or nothing more in the queue. -/
  | hold
  /-- The sink's worker hands its batch to the coordinator. -/
  | accept
  /-- The sink's worker gives up waiting and looks whether the buffer is too old. -/
  | tick
  /-- The sink's worker flushes the last buffer and ends. -/
  | finish
  /-- The supervisor stops the connector. -/
  | stop
  /-- The supervisor closes the queue, after it has stopped the connector. -/
  | close
  /-- Time passes. -/
  | pass (d : Duration)
  /-- It is decided that uploads are cancelled a while from now. -/
  | abort (d : Duration)
  deriving DecidableEq, Repr

namespace Pipeline

variable {σ : Type}

def now (p : Pipeline σ) : Duration := p.coordinator.now

/-- The source's worker after it has asked for a batch. -/
def afterPull (source : Source) : Intake :=
  match source.next with
  | .error fault => .ended (.error (.unread fault))
  | .ok (none, _) => .ended (.ok ())
  | .ok (some batch, source) => .checking batch source

/-- The end of the source's worker when a record is not delivered. -/
def undelivered (settings : PipelineSettings) (delivery : Delivery) : Intake :=
  .ended (match delivery.output settings.names settings.patience with
    | .ok () => .ok ()
    | .error e => .error (.notForwarded e))

/-- The source's worker after it has checked the connector. -/
def afterCheck (settings : PipelineSettings) (p : Pipeline σ) (rest : List Record)
    (source : Source) : Intake :=
  match rest with
  | [] => .reading source
  | record :: rest =>
    if p.stopped then undelivered settings .inactive
    else .writing record rest source (p.now + settings.patience).ceilMillisecond

/-- The sink's worker after a call to the coordinator. -/
def afterCall {α : Type} (next : Outlet) (fault : ArchiveError → RunFault)
    (result : Except ArchiveError α × Coordinator σ) (p : Pipeline σ) : Pipeline σ :=
  { p with
    coordinator := result.2
    outlet := match result.1 with
      | .ok _ => next
      | .error e => .ended (.error (fault e)) }

def onClock (change : Clock → Clock) (p : Pipeline σ) : Pipeline σ :=
  { p with coordinator :=
      { p.coordinator with world := p.coordinator.world.onClock change } }

variable [ObjectStore σ]

/-- The state after an action, if that action is possible. -/
def step? (settings : PipelineSettings) (p : Pipeline σ) : Action → Option (Pipeline σ)
  | .pull =>
    match p.intake with
    | .reading source => some { p with intake := afterPull source }
    | _ => none
  | .check =>
    match p.intake with
    | .checking rest source => some { p with intake := afterCheck settings p rest source }
    | _ => none
  | .write =>
    match p.intake with
    | .writing record rest source _ => do
      return { p with queue := ← p.queue.push? record, intake := .checking rest source }
    | _ => none
  | .expire =>
    match p.intake with
    | .writing _ _ _ deadline =>
      if deadline ≤ p.now then some { p with intake := undelivered settings .timedOut } else none
    | _ => none
  | .refuse =>
    match p.intake with
    | .writing _ _ _ _ =>
      if p.queue.closed then some { p with intake := undelivered settings .closed } else none
    | _ => none
  | .take =>
    match p.outlet with
    | .waiting => do
      let (first, queue) ← p.queue.take? 1
      return { p with queue := queue, outlet := .gathering first }
    | _ => none
  | .gather =>
    match p.outlet with
    | .gathering batch =>
      if batch.length < settings.batchSize then do
        let (more, queue) ← p.queue.take? 1
        return { p with queue := queue, outlet := .gathering (batch ++ more) }
      else none
    | _ => none
  | .hold =>
    match p.outlet with
    | .gathering batch =>
      if settings.batchSize ≤ batch.length ∨ p.queue.items.isEmpty then
        some { p with outlet := .holding batch }
      else none
    | _ => none
  | .accept =>
    match p.outlet with
    | .holding batch =>
      some (p.afterCall .waiting .notAccepted (p.coordinator.accept settings.sink batch))
    | _ => none
  | .tick =>
    match p.outlet with
    | .waiting => some (p.afterCall .waiting .notExpired (p.coordinator.flushExpired settings.sink))
    | _ => none
  | .finish =>
    match p.outlet with
    | .waiting =>
      if p.queue.isDrained then
        some (p.afterCall (.ended (.ok ())) .notFlushed (p.coordinator.shutdown settings.sink))
      else none
    | _ => none
  | .stop => some { p with stopped := true }
  | .close => if p.stopped then some { p with queue := p.queue.close } else none
  | .pass d => some (p.onClock (·.advance d))
  | .abort d => some (p.onClock (·.cancelAfter d))

section Turns

omit [ObjectStore σ]

/-- What the supervisor does next when a worker has ended. -/
def supervisorTurn (p : Pipeline σ) : Option Action :=
  if !p.stopped then some .stop else if !p.queue.closed then some .close else none

/-- What the sink's worker does next, or the supervisor when that has ended. -/
def outletTurn (p : Pipeline σ) : Option Action :=
  match p.outlet with
  | .gathering _ => none
  | .holding _ => some .accept
  | .waiting =>
    if !p.queue.items.isEmpty then some .take
    else if p.queue.closed then some .finish
    else none
  | .ended _ => p.supervisorTurn

/-- What is done next, while no batch is gathered: the source goes first, and a wait
is given up before the sink makes room. -/
def intakeTurn (p : Pipeline σ) : Option Action :=
  match p.intake with
  | .reading _ => some .pull
  | .checking _ _ => some .check
  | .writing _ _ _ deadline =>
    if p.queue.closed then some .refuse
    else if p.queue.hasRoom then some .write
    else if deadline ≤ p.now then some .expire
    else p.outletTurn
  | .ended _ => p.supervisorTurn.or p.outletTurn

/-- What is done next.  A batch is gathered without a pause. -/
def turn (settings : PipelineSettings) (p : Pipeline σ) : Option Action :=
  match p.outlet with
  | .gathering batch =>
    if batch.length < settings.batchSize && !p.queue.items.isEmpty then some .gather
    else some .hold
  | _ => p.intakeTurn

end Turns

/-- Does what is next, at most `fuel` times. -/
def runFrom (settings : PipelineSettings) : (fuel : Nat) → Pipeline σ → Pipeline σ
  | 0, p => p
  | fuel + 1, p =>
    match (p.turn settings).bind (p.step? settings) with
    | none => p
    | some p => runFrom settings fuel p

/-- A pipeline in which nothing has happened yet. -/
def start (source : Source) (queueCapacity : Nat) (coordinator : Coordinator σ) : Pipeline σ :=
  { intake := .reading source, queue := .ofCapacity queueCapacity, coordinator := coordinator }

/-- Runs a pipeline to its end.  Every record is pulled, checked, written, taken,
held and accepted at most once. -/
def run (settings : PipelineSettings) (source : Source) (queueCapacity : Nat) (stop : Bool)
    (coordinator : Coordinator σ) : Pipeline σ :=
  let p := start source queueCapacity coordinator
  let p := if stop then { p with stopped := true, queue := p.queue.close } else p
  runFrom settings (8 * source.left + 16) p

omit [ObjectStore σ] in
/-- How a run ended, when both workers have.  The sink's failure counts before the
source's, and after a stop the source's does not count at all. -/
def result? (stop : Bool) (p : Pipeline σ) : Option (Except RunFault Tally) :=
  match p.intake, p.outlet with
  | .ended _, .ended (.error fault) => some (.error fault)
  | .ended (.error fault), .ended (.ok ()) =>
    some (if stop then .ok p.coordinator.tally else .error fault)
  | .ended (.ok ()), .ended (.ok ()) => some (.ok p.coordinator.tally)
  | _, _ => none

end Pipeline

end RecordArchive
