import RecordArchive.Connector.Exchange

/-!
# Steps of an exchange

`Step` says of every action when it is possible and what it does; `step_of_step?` is
the inversion of `step?`.  The events of an action tell what the exchange itself forgets.
-/

namespace RecordArchive

/-- What happens to queues and records, each transfer, queue and reading by its number. -/
inductive Event (α : Type)
  | made (queue requested : Nat)
  /-- A transfer was given records, for the connector or for one queue. -/
  | given (transfer : Nat) (records : List α) (queue? : Option Nat)
  /-- The next record of a transfer is to get into a queue. -/
  | assigned (transfer queue : Nat)
  | landed (transfer queue : Nat) (record : α)
  | taken (reading queue : Nat) (record : α)

namespace Event

variable {α : Type}

def transfer? : Event α → Option Nat
  | given transfer _ _ | assigned transfer _ | landed transfer _ _ => some transfer
  | made _ _ | taken _ _ _ => none

/-- The queue that changes. -/
def queue? : Event α → Option Nat
  | made queue _ | landed _ queue _ | taken _ queue _ => some queue
  | given _ _ _ | assigned _ _ => none

def reading? : Event α → Option Nat
  | taken reading _ _ => some reading
  | made _ _ | given _ _ _ | assigned _ _ | landed _ _ _ => none

def requested? : Event α → Option Nat
  | made _ requested => some requested
  | _ => none

def given? : Event α → Option (List α × Option Nat)
  | given _ records queue? => some (records, queue?)
  | _ => none

def assigned? : Event α → Option Nat
  | assigned _ queue => some queue
  | _ => none

def landed? : Event α → Option α
  | landed _ _ record => some record
  | _ => none

/-- The queue in which a record has landed. -/
def landing? : Event α → Option Nat
  | landed _ queue _ => some queue
  | _ => none

def taken? : Event α → Option α
  | taken _ _ record => some record
  | _ => none

/-- The queue from which a record was taken. -/
def source? : Event α → Option Nat
  | taken _ queue _ => some queue
  | _ => none

/-- The events that concern one transfer, queue or reading. -/
def about (number? : Event α → Option Nat) (n : Nat) (events : List (Event α)) :
    List (Event α) :=
  events.filter fun event => number? event = some n

theorem about_append (number? : Event α → Option Nat) (n : Nat) (events more : List (Event α)) :
    about number? n (events ++ more) = about number? n events ++ about number? n more :=
  List.filter_append ..

theorem mem_about {number? : Event α → Option Nat} {n : Nat} {events : List (Event α)}
    {event : Event α} :
    event ∈ about number? n events ↔ event ∈ events ∧ number? event = some n := by
  simp [about]

theorem about_cons (number? : Event α → Option Nat) (n : Nat) (event : Event α)
    (events : List (Event α)) :
    about number? n (event :: events) =
      if number? event = some n then event :: about number? n events
      else about number? n events := by
  simp [about, List.filter_cons]

theorem about_self {number? : Event α → Option Nat} {n : Nat} {events : List (Event α)}
    (h : ∀ event ∈ events, number? event = some n) : about number? n events = events :=
  List.filter_eq_self.mpr fun event hevent => decide_eq_true (h event hevent)

theorem about_eq_nil {number? : Event α → Option Nat} {n : Nat} {events : List (Event α)}
    (h : ∀ event ∈ events, number? event ≠ some n) : about number? n events = [] :=
  List.filter_eq_nil_iff.mpr fun event hevent => by simp [h event hevent]

end Event

namespace Exchange

variable {α : Type}

/-- The record that a reading can take. -/
def takings (e : Exchange α) (reading : Nat) : List (Event α) :=
  match e.readings[reading]? with
  | none => []
  | some r =>
    match (e.queue? r.queue).bind (·.take? 1) with
    | none => []
    | some (first, _) => first.map (.taken reading r.queue)

/-- The events of an action that is possible. -/
def events (e : Exchange α) : Action α → List (Event α)
  | .make capacity => [.made e.queues.length capacity]
  | .output records => [.given e.transfers.length records none]
  | .write queue record _ =>
    [.given e.transfers.length [record] (some queue), .assigned e.transfers.length queue]
  | .choose transfer => e.attached.toList.map (.assigned transfer)
  | .push transfer =>
    match e.phase? transfer with
    | some (.writing queue record _ _) => [.landed transfer queue record]
    | _ => []
  | .receive reading | .gather reading => e.takings reading
  | _ => []

/-- The events of a reading that takes a record. -/
theorem takings_eq {e : Exchange α} {reading queue greatest : Nat} {stage : ReadStage α}
    {q left : Queue α} {first : List α}
    (hreading : e.readings[reading]? = some ⟨queue, greatest, stage⟩)
    (hqueue : e.queue? queue = some q) (htake : q.take? 1 = some (first, left)) :
    e.takings reading = first.map (.taken reading queue) := by
  unfold takings
  simp only [hreading, hqueue, Option.bind_some, htake]

theorem takings_eq_nil {e : Exchange α} {reading queue greatest : Nat} {stage : ReadStage α}
    {q : Queue α} (hreading : e.readings[reading]? = some ⟨queue, greatest, stage⟩)
    (hqueue : e.queue? queue = some q) (htake : q.take? 1 = none) : e.takings reading = [] := by
  unfold takings
  simp only [hreading, hqueue, Option.bind_some, htake]

/-- What an action does where it is possible. -/
inductive Step (e : Exchange α) : Action α → Exchange α → Prop
  | make (capacity : Nat) :
    Step e (.make capacity) { e with queues := e.queues ++ [.ofCapacity capacity] }
  | ignore {queue : Nat} (hstopped : e.stopped = true) : Step e (.start queue) e
  | start {queue : Nat} (hrunning : e.stopped = false) (hqueue : queue < e.queues.length) :
    Step e (.start queue) { e with starting := e.starting ++ [queue] }
  | attach {queue : Nat} (hstarting : queue ∈ e.starting) :
    Step e (.attach queue)
      { e with starting := e.starting.erase queue, attached := some queue }
  | stop : Step e .stop { e with stopped := true }
  | close {queue : Nat} {q : Queue α} (hqueue : e.queue? queue = some q) :
    Step e (.close queue) (e.setQueue queue q.close)
  | read {queue : Nat} (hqueue : queue < e.queues.length) (greatest : Nat) :
    Step e (.read queue greatest)
      { e with readings := e.readings ++ [⟨queue, greatest, .waiting⟩] }
  | receive {reading queue greatest : Nat} {q left : Queue α} {first : List α}
    (hreading : e.readings[reading]? = some ⟨queue, greatest, .waiting⟩)
    (hqueue : e.queue? queue = some q) (htake : q.take? 1 = some (first, left)) :
    Step e (.receive reading) ((e.setQueue queue left).setStage reading (.gathering first))
  | finish {reading queue greatest : Nat} {q : Queue α}
    (hreading : e.readings[reading]? = some ⟨queue, greatest, .waiting⟩)
    (hqueue : e.queue? queue = some q) (htake : q.take? 1 = none) (hclosed : q.closed = true) :
    Step e (.receive reading) (e.setStage reading (.ended none))
  | gather {reading queue greatest : Nat} {q left : Queue α} {batch more : List α}
    (hreading : e.readings[reading]? = some ⟨queue, greatest, .gathering batch⟩)
    (hroom : batch.length < greatest) (hqueue : e.queue? queue = some q)
    (htake : q.take? 1 = some (more, left)) :
    Step e (.gather reading)
      ((e.setQueue queue left).setStage reading (.gathering (batch ++ more)))
  | answer {reading queue greatest : Nat} {batch : List α}
    (hreading : e.readings[reading]? = some ⟨queue, greatest, .gathering batch⟩)
    (hdone : greatest ≤ batch.length ∨ (e.queue? queue).all (·.items.isEmpty) = true) :
    Step e (.answer reading) (e.setStage reading (.ended (some batch)))
  | output (records : List α) :
    Step e (.output records)
      { e with transfers := e.transfers ++ [⟨e.patience, .checking records⟩] }
  | write {queue : Nat} (hqueue : queue < e.queues.length) (record : α) (patience : Duration) :
    Step e (.write queue record patience) { e with transfers :=
      e.transfers ++ [⟨patience, .writing queue record [] (e.deadline patience)⟩] }
  | check {transfer : Nat} {records : List α}
    (hphase : e.phase? transfer = some (.checking records)) :
    Step e (.check transfer) (e.setPhase transfer (e.afterCheck records))
  | choose {transfer : Nat} {patience : Duration} {record : α} {rest : List α}
    (htransfer : e.transfers[transfer]? = some ⟨patience, .choosing record rest⟩) :
    Step e (.choose transfer) (e.setPhase transfer (e.afterChoice patience record rest))
  | push {transfer queue : Nat} {record : α} {rest : List α} {deadline : Duration}
    {q filled : Queue α} (hphase : e.phase? transfer = some (.writing queue record rest deadline))
    (hqueue : e.queue? queue = some q) (hpush : q.push? record = some filled) :
    Step e (.push transfer) ((e.setQueue queue filled).setPhase transfer (.checking rest))
  | expire {transfer queue : Nat} {record : α} {rest : List α} {deadline : Duration}
    (hphase : e.phase? transfer = some (.writing queue record rest deadline))
    (hdue : deadline ≤ e.now) :
    Step e (.expire transfer) (e.setPhase transfer (.finished .timedOut))
  | refuse {transfer queue : Nat} {record : α} {rest : List α} {deadline : Duration}
    {q : Queue α} (hphase : e.phase? transfer = some (.writing queue record rest deadline))
    (hqueue : e.queue? queue = some q) (hclosed : q.closed = true) :
    Step e (.refuse transfer) (e.setPhase transfer (.finished .closed))
  | advance (d : Duration) : Step e (.advance d) { e with now := e.now + d }

theorem step_of_step? {e e' : Exchange α} {action : Action α} (h : e.step? action = some e') :
    Step e action e' := by
  cases action with
  | make capacity =>
    cases h
    exact .make capacity
  | start queue =>
    simp only [step?] at h
    split at h
    · cases h
      exact .ignore ‹_›
    · split at h
      · cases h
        exact .start (Bool.eq_false_iff.mpr ‹_›) ‹_›
      · cases h
  | attach queue =>
    simp only [step?] at h
    split at h
    · cases h
      exact .attach ‹_›
    · cases h
  | stop =>
    cases h
    exact .stop
  | close queue =>
    obtain ⟨q, hqueue, he⟩ := Option.bind_eq_some_iff.mp h
    cases he
    exact .close hqueue
  | read queue greatest =>
    simp only [step?] at h
    split at h
    · cases h
      exact .read ‹_› greatest
    · cases h
  | receive reading =>
    simp only [step?] at h
    split at h
    · obtain ⟨q, hqueue, h⟩ := Option.bind_eq_some_iff.mp h
      split at h
      · cases h
        exact .receive ‹_› hqueue ‹_›
      · split at h
        · cases h
          exact .finish ‹_› hqueue ‹_› ‹_›
        · cases h
    · cases h
  | gather reading =>
    simp only [step?] at h
    split at h
    · split at h
      · obtain ⟨q, hqueue, h⟩ := Option.bind_eq_some_iff.mp h
        obtain ⟨⟨more, left⟩, htake, he⟩ := Option.bind_eq_some_iff.mp h
        cases he
        exact .gather ‹_› ‹_› hqueue htake
      · cases h
    · cases h
  | answer reading =>
    simp only [step?] at h
    split at h
    · split at h
      · cases h
        exact .answer ‹_› ‹_›
      · cases h
    · cases h
  | output records =>
    cases h
    exact .output records
  | write queue record patience =>
    simp only [step?] at h
    split at h
    · cases h
      exact .write ‹_› record patience
    · cases h
  | check transfer =>
    simp only [step?] at h
    split at h
    · cases h
      exact .check ‹_›
    · cases h
  | choose transfer =>
    simp only [step?] at h
    split at h
    · cases h
      exact .choose ‹_›
    · cases h
  | push transfer =>
    simp only [step?] at h
    split at h
    · obtain ⟨q, hqueue, h⟩ := Option.bind_eq_some_iff.mp h
      obtain ⟨filled, hpush, he⟩ := Option.bind_eq_some_iff.mp h
      cases he
      exact .push ‹_› hqueue hpush
    · cases h
  | expire transfer =>
    simp only [step?] at h
    split at h
    · split at h
      · cases h
        exact .expire ‹_› ‹_›
      · cases h
    · cases h
  | refuse transfer =>
    simp only [step?] at h
    split at h
    · rename_i queue record rest deadline hphase
      split at h
      · rename_i hany
        cases h
        cases hqueue : e.queue? queue with
        | none =>
          rw [hqueue] at hany
          cases hany
        | some q =>
          rw [hqueue] at hany
          exact .refuse hphase hqueue hany
      · cases h
    · cases h
  | advance d =>
    cases h
    exact .advance d

end Exchange

end RecordArchive
