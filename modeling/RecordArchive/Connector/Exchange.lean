import RecordArchive.Connector.Queue
import RecordArchive.Error

/-!
# Connectors, and what goes through them

A connector writes the records of one pipeline into a queue of the next.  Any
number of transfers and readings may be under way at once.  A transfer writes its
records one after the other: for each it checks that the connector is running,
looks up the queue that is attached at that moment, and waits for room in it.  A
reading waits for one record and then takes what else is there.  What can happen
next is given by `step?`, one small action at a time, so that a run is any list of
actions that are possible one after the other.
-/

namespace RecordArchive

/-- How a transfer ended. -/
inductive Delivery
  /-- Every record was written. -/
  | complete
  /-- A record found no room in time. -/
  | timedOut
  /-- The queue was closed. -/
  | closed
  /-- The connector was not running. -/
  | inactive
  deriving DecidableEq, Repr

/-- Where a transfer stands. -/
inductive Phase (α : Type)
  /-- The connector is about to be checked for the next record. -/
  | checking (rest : List α)
  /-- The connector was running, and a queue is to be looked up for a record. -/
  | choosing (record : α) (rest : List α)
  /-- A record is to be written before a deadline. -/
  | writing (queue : Nat) (record : α) (rest : List α) (deadline : Duration)
  | finished (delivery : Delivery)

/-- A transfer, with the time that each of its records may wait. -/
structure Transfer (α : Type) where
  patience : Duration
  phase : Phase α

/-- Where a reading stands. -/
inductive ReadStage (α : Type)
  | waiting
  /-- Some records have been taken, and there may be more. -/
  | gathering (batch : List α)
  /-- A batch was answered, or that there will be none. -/
  | ended (batch? : Option (List α))

/-- A reading of at most so many records, but one in any case. -/
structure Reading (α : Type) where
  queue : Nat
  greatest : Nat
  stage : ReadStage α

/-- The state of a connector as others see it. -/
inductive ConnectorState
  | initialized
  | running
  | stopped
  deriving DecidableEq, Repr

/-- A connector, the queues that were made, and the transfers and readings that were
begun, each by its number.  Queues that are to be attached have passed the check for
that. -/
structure Exchange (α : Type) where
  patience : Duration
  queues : List (Queue α) := []
  starting : List Nat := []
  attached : Option Nat := none
  stopped : Bool := false
  transfers : List (Transfer α) := []
  readings : List (Reading α) := []
  now : Duration := .zero

/-- What can happen. -/
inductive Exchange.Action (α : Type)
  /-- A queue is made. -/
  | make (capacity : Nat)
  /-- A queue is to be attached to the connector, unless that is stopped. -/
  | start (queue : Nat)
  /-- A queue is attached that was to be. -/
  | attach (queue : Nat)
  | stop
  | close (queue : Nat)
  /-- A reading of a queue begins. -/
  | read (queue : Nat) (greatest : Nat)
  /-- A reading takes its first record, or finds that there will be none. -/
  | receive (reading : Nat)
  /-- A reading takes another record. -/
  | gather (reading : Nat)
  /-- A reading answers what it has taken. -/
  | answer (reading : Nat)
  /-- Records are given to the connector. -/
  | output (records : List α)
  /-- A record is written to a queue directly. -/
  | write (queue : Nat) (record : α) (patience : Duration)
  /-- A transfer checks the connector. -/
  | check (transfer : Nat)
  /-- A transfer looks up the queue that is attached. -/
  | choose (transfer : Nat)
  /-- The record of a transfer gets into its queue. -/
  | push (transfer : Nat)
  /-- The deadline of a transfer has come. -/
  | expire (transfer : Nat)
  /-- A transfer finds its queue closed. -/
  | refuse (transfer : Nat)
  /-- Time passes. -/
  | advance (d : Duration)

namespace Exchange

variable {α : Type}

def state (e : Exchange α) : ConnectorState :=
  if e.stopped then .stopped else if e.attached.isSome then .running else .initialized

def queue? (e : Exchange α) (n : Nat) : Option (Queue α) := e.queues[n]?

def phase? (e : Exchange α) (n : Nat) : Option (Phase α) := e.transfers[n]?.map (·.phase)

def stage? (e : Exchange α) (n : Nat) : Option (ReadStage α) := e.readings[n]?.map (·.stage)

def setQueue (e : Exchange α) (n : Nat) (q : Queue α) : Exchange α :=
  { e with queues := e.queues.set n q }

def setPhase (e : Exchange α) (n : Nat) (phase : Phase α) : Exchange α :=
  { e with transfers := e.transfers.modify n fun t => { t with phase := phase } }

def setStage (e : Exchange α) (n : Nat) (stage : ReadStage α) : Exchange α :=
  { e with readings := e.readings.modify n fun r => { r with stage := stage } }

/-- The moment at which a wait that begins now is given up.  Timers go off at
whole milliseconds. -/
def deadline (e : Exchange α) (patience : Duration) : Duration :=
  (e.now + patience).ceilMillisecond

/-- The phase of a transfer after it has checked the connector. -/
def afterCheck (e : Exchange α) : List α → Phase α
  | [] => .finished .complete
  | record :: rest => if e.stopped then .finished .inactive else .choosing record rest

/-- The phase of a transfer after it has looked up the queue for a record. -/
def afterChoice (e : Exchange α) (patience : Duration) (record : α) (rest : List α) : Phase α :=
  match e.attached with
  | none => .finished .inactive
  | some queue => .writing queue record rest (e.deadline patience)

/-- The state after an action, if that action is possible. -/
def step? (e : Exchange α) : Action α → Option (Exchange α)
  | .make capacity => some { e with queues := e.queues ++ [.ofCapacity capacity] }
  | .start queue =>
    if e.stopped then some e
    else if queue < e.queues.length then some { e with starting := e.starting ++ [queue] }
    else none
  | .attach queue =>
    if queue ∈ e.starting then
      some { e with starting := e.starting.erase queue, attached := some queue }
    else none
  | .stop => some { e with stopped := true }
  | .close queue => do return e.setQueue queue (← e.queue? queue).close
  | .read queue greatest =>
    if queue < e.queues.length then
      some { e with readings := e.readings ++ [⟨queue, greatest, .waiting⟩] }
    else none
  | .receive reading =>
    match e.readings[reading]? with
    | some ⟨queue, _, .waiting⟩ => do
      let q ← e.queue? queue
      match q.take? 1 with
      | some (first, left) => return (e.setQueue queue left).setStage reading (.gathering first)
      | none => if q.closed then some (e.setStage reading (.ended none)) else none
    | _ => none
  | .gather reading =>
    match e.readings[reading]? with
    | some ⟨queue, greatest, .gathering batch⟩ =>
      if batch.length < greatest then do
        let (more, left) ← (← e.queue? queue).take? 1
        return (e.setQueue queue left).setStage reading (.gathering (batch ++ more))
      else none
    | _ => none
  | .answer reading =>
    match e.readings[reading]? with
    | some ⟨queue, greatest, .gathering batch⟩ =>
      if greatest ≤ batch.length ∨ (e.queue? queue).all (·.items.isEmpty) then
        some (e.setStage reading (.ended (some batch)))
      else none
    | _ => none
  | .output records =>
    some { e with transfers := e.transfers ++ [⟨e.patience, .checking records⟩] }
  | .write queue record patience =>
    if queue < e.queues.length then
      some { e with transfers :=
        e.transfers ++ [⟨patience, .writing queue record [] (e.deadline patience)⟩] }
    else none
  | .check transfer =>
    match e.phase? transfer with
    | some (.checking records) => some (e.setPhase transfer (e.afterCheck records))
    | _ => none
  | .choose transfer =>
    match e.transfers[transfer]? with
    | some ⟨patience, .choosing record rest⟩ =>
      some (e.setPhase transfer (e.afterChoice patience record rest))
    | _ => none
  | .push transfer =>
    match e.phase? transfer with
    | some (.writing queue record rest _) => do
      let q ← (← e.queue? queue).push? record
      return (e.setQueue queue q).setPhase transfer (.checking rest)
    | _ => none
  | .expire transfer =>
    match e.phase? transfer with
    | some (.writing _ _ _ deadline) =>
      if deadline ≤ e.now then some (e.setPhase transfer (.finished .timedOut)) else none
    | _ => none
  | .refuse transfer =>
    match e.phase? transfer with
    | some (.writing queue _ _ _) =>
      if (e.queue? queue).any (·.closed) then some (e.setPhase transfer (.finished .closed))
      else none
    | _ => none
  | .advance d => some { e with now := e.now + d }

/-- The state after a list of actions. -/
def run? (e : Exchange α) (actions : List (Action α)) : Option (Exchange α) :=
  actions.foldlM step? e

end Exchange

/-- The names of the two pipelines that a connector joins. -/
structure PipelineNames where
  sink : String
  source : String := "unknown"
  deriving DecidableEq, Repr

namespace Delivery

/-- What the end of a transfer through a connector means to its caller. -/
def output (names : PipelineNames) (patience : Duration) : Delivery → Except ArchiveError Unit
  | complete => .ok ()
  | timedOut => .error (.connectorTimeout names.sink names.source patience)
  | closed | inactive => .error (.connectorInactive names.sink names.source)

def write (patience : Duration) : Delivery → Except QueueError Unit
  | complete => .ok ()
  | timedOut => .error (.timeout patience)
  | closed | inactive => .error .closed

theorem output_eq_ok_iff {delivery : Delivery} {names : PipelineNames} {patience : Duration} :
    delivery.output names patience = .ok () ↔ delivery = complete := by
  cases delivery <;> simp [output]

theorem write_eq_ok_iff {delivery : Delivery} {patience : Duration} :
    delivery.write patience = .ok () ↔ delivery = complete := by
  cases delivery <;> simp [write]

end Delivery

end RecordArchive
