import RecordArchive.Connector.Exchange

/-!
# Taking turns

Which of several transfers goes on when a queue has room.  A transfer that finds
its queue full takes a ticket.  Every record read calls the first ticket that is
not called yet, and a record written into a queue with room for more than one
calls the first ticket unless one is called already.  Transfers that are called
go on in the order of their calls; one that finds no room after all takes a new
ticket, behind the others.
-/

namespace RecordArchive

/-- A transfer that waits for room in a queue. -/
structure Ticket where
  transfer : Nat
  queue : Nat
  called : Bool := false
  deriving DecidableEq, Repr

/-- An exchange with the tickets that were taken, in order, and the transfers
that are to go on, in order. -/
structure Turns (α : Type) where
  exchange : Exchange α
  tickets : List Ticket := []
  ready : List Nat := []

namespace Turns

variable {α : Type}

/-- Does an action that is possible; any other changes nothing. -/
def perform (t : Turns α) (action : Exchange.Action α) : Turns α :=
  { t with exchange := (t.exchange.step? action).getD t.exchange }

/-- Does an action, and attaches at once a queue that is to be attached. -/
def act (t : Turns α) (action : Exchange.Action α) : Turns α :=
  match action with
  | .start queue => (t.perform (.start queue)).perform (.attach queue)
  | _ => t.perform action

/-- Marks the first ticket of a queue that is not called, and names its transfer. -/
def callFirst (queue : Nat) : List Ticket → List Ticket × Option Nat
  | [] => ([], none)
  | ticket :: rest =>
    if ticket.queue = queue ∧ !ticket.called then
      ({ ticket with called := true } :: rest, some ticket.transfer)
    else
      let (rest, found) := callFirst queue rest
      (ticket :: rest, found)

/-- Calls the first ticket of a queue that is not called. -/
def call (t : Turns α) (queue : Nat) : Turns α :=
  let (tickets, found) := callFirst queue t.tickets
  { t with tickets := tickets, ready := t.ready ++ found.toList }

/-- Calls the first ticket of a queue, unless one of them is called already. -/
def callUnlessCalled (t : Turns α) (queue : Nat) : Turns α :=
  if t.tickets.any fun ticket => ticket.queue == queue && ticket.called then t else t.call queue

def callMany (t : Turns α) (queue : Nat) : Nat → Turns α
  | 0 => t
  | count + 1 => (t.call queue).callMany queue count

def dropTicket (t : Turns α) (transfer : Nat) : Turns α :=
  { t with tickets := t.tickets.filter (·.transfer ≠ transfer) }

/-- Records that a phase has still to write. -/
def pending : Phase α → Nat
  | .checking rest => rest.length
  | .choosing _ rest | .writing _ _ rest _ => rest.length + 1
  | .finished _ => 0

/-- Lets a transfer go on until it ends or has to wait, in at most `fuel` actions. -/
def proceed (transfer : Nat) : (fuel : Nat) → Turns α → Turns α
  | 0, t => t
  | fuel + 1, t =>
    match t.exchange.phase? transfer with
    | none | some (.finished _) => t
    | some (.checking _) => proceed transfer fuel (t.perform (.check transfer))
    | some (.choosing _ _) => proceed transfer fuel (t.perform (.choose transfer))
    | some (.writing queue _ _ deadline) =>
      match t.exchange.queue? queue with
      | none => t
      | some q =>
        if q.closed then proceed transfer fuel (t.perform (.refuse transfer))
        else if q.hasRoom then
          let t := t.perform (.push transfer)
          proceed transfer fuel (if q.capacity = 1 then t else t.callUnlessCalled queue)
        else if deadline ≤ t.exchange.now then proceed transfer fuel (t.perform (.expire transfer))
        else { t with tickets := t.tickets ++ [⟨transfer, queue, false⟩] }

def resume (t : Turns α) (transfer : Nat) : Turns α :=
  let fuel := match t.exchange.phase? transfer with
    | some phase => 3 * pending phase + 2
    | none => 0
  proceed transfer fuel (t.dropTicket transfer)

/-- Records that all transfers have still to write. -/
def allPending (t : Turns α) : Nat :=
  t.exchange.transfers.foldl (fun count transfer => count + pending transfer.phase) 0

/-- Lets the transfers that were called go on, in at most `fuel` turns. -/
def settleFrom : (fuel : Nat) → Turns α → Turns α
  | 0, t => t
  | fuel + 1, t =>
    match t.ready with
    | [] => t
    | transfer :: rest => settleFrom fuel ({ t with ready := rest }.resume transfer)

/-- Lets the transfers that were called go on until all of them wait.  Every turn
but the first ones is called for by a record that was written. -/
def settle (t : Turns α) : Turns α := settleFrom (t.ready.length + t.allPending + 1) t

/-- Gives up the waits whose deadline has come. -/
def expireDue (t : Turns α) : Turns α :=
  t.tickets.foldl (fun t ticket =>
    match t.exchange.step? (.expire ticket.transfer) with
    | some exchange => { t with exchange := exchange }.dropTicket ticket.transfer
    | none => t) t

def advance (t : Turns α) (d : Duration) : Turns α := ((t.perform (.advance d)).expireDue).settle

def deadline? (t : Turns α) (transfer : Nat) : Option Duration :=
  match t.exchange.phase? transfer with
  | some (.writing _ _ _ deadline) => some deadline
  | _ => none

/-- The deadline that comes first. -/
def nextDeadline? (t : Turns α) : Option Duration :=
  (t.tickets.filterMap fun ticket => t.deadline? ticket.transfer).foldl
    (fun first d => match first with
      | none => some d
      | some e => some (if d ≤ e then d else e)) none

def delivery? (t : Turns α) (transfer : Nat) : Option Delivery :=
  match t.exchange.phase? transfer with
  | some (.finished delivery) => some delivery
  | _ => none

/-- Lets time pass from deadline to deadline, at most `fuel` of them, until a
transfer has ended. -/
def awaitFrom (transfer : Nat) : (fuel : Nat) → Turns α → Turns α
  | 0, t => t
  | fuel + 1, t =>
    match t.delivery? transfer, t.nextDeadline? with
    | none, some d => awaitFrom transfer fuel (t.advance (d - t.exchange.now))
    | _, _ => t

/-- Lets time pass until a transfer has ended. -/
def await (t : Turns α) (transfer : Nat) : Turns α :=
  awaitFrom transfer (t.exchange.transfers.length + 1) t

def nextTransfer (t : Turns α) : Nat := t.exchange.transfers.length

def output (t : Turns α) (records : List α) : Turns α :=
  ((t.perform (.output records)).resume t.nextTransfer).settle

def write (t : Turns α) (queue : Nat) (record : α) (patience : Duration) : Turns α :=
  ((t.perform (.write queue record patience)).resume t.nextTransfer).settle

/-- Lets a reading take more records, at most `fuel` of them. -/
def gather (reading : Nat) : (fuel : Nat) → Turns α → Turns α
  | 0, t => t
  | fuel + 1, t => gather reading fuel (t.perform (.gather reading))

def batch? (t : Turns α) (reading : Nat) : Option (List α) :=
  match t.exchange.stage? reading with
  | some (.ended batch?) => batch?
  | _ => none

/-- Reads from a queue, if that does not have to wait.  Transfers that wait for room
go on afterwards. -/
def read (t : Turns α) (queue greatest : Nat) : Option (List α) × Turns α :=
  let reading := t.exchange.readings.length
  let there := ((t.exchange.queue? queue).map (·.items.length)).getD 0
  let begun := (t.perform (.read queue greatest)).perform (.receive reading)
  let done := (gather reading there begun).perform (.answer reading)
  match done.batch? reading with
  | none => (none, t)
  | some batch => (some batch, (done.callMany queue batch.length).settle)

/-- Closes a queue.  Transfers that wait for room in it end. -/
def close (t : Turns α) (queue : Nat) : Turns α :=
  ((t.perform (.close queue)).callMany queue t.tickets.length).settle

end Turns

end RecordArchive
