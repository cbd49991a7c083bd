import RecordArchive.Proofs.Connector.Parts

/-!
# The traffic through a connector

A run together with its events.  `Sound` says of every queue, transfer and reading how it
stands to the events that concern it.  The main statement is `sound_run`, that every run
from the start keeps this, whatever tasks there are and in whatever order they go on.
-/

namespace RecordArchive

/-- An exchange, and what has happened so far. -/
structure Traffic (α : Type) where
  exchange : Exchange α
  events : List (Event α) := []

variable {α : Type}

/-! ## What the parts owe to their events -/

/-- What landed in a queue and was not taken is there, in order. -/
def Queue.Sound (told : List (Event α)) : Option (Queue α) → Prop
  | none => told = []
  | some q =>
    told.filterMap Event.landed? = told.filterMap Event.taken? ++ q.items ∧
      q.items.length ≤ q.capacity ∧
      ∃ requested, told.filterMap Event.requested? = [requested] ∧ q.capacity = max 1 requested

/-- The records that have landed and those that are left are the ones that were given. -/
def Phase.Accounts (batch landed : List α) : Phase α → Prop
  | checking rest => landed ++ rest = batch
  | choosing record rest | writing _ record rest _ => landed ++ record :: rest = batch
  | finished .complete => landed = batch
  | finished .timedOut | finished .closed | finished .inactive =>
    ∃ missed rest, landed ++ missed :: rest = batch

/-- Records landed in the queues that were looked up for them.  The last look-up may be
for a record that has not landed. -/
def Phase.Places (assigned reached : List Nat) : Phase α → Prop
  | checking _ | choosing _ _ | finished .complete | finished .inactive => assigned = reached
  | writing queue _ _ _ => assigned = reached ++ [queue]
  | finished .timedOut | finished .closed => ∃ queue, assigned = reached ++ [queue]

/-- No queue is looked up any more. -/
def Phase.Placed : Phase α → Prop
  | checking rest | writing _ _ rest _ => rest = []
  | choosing _ _ => False
  | finished _ => True

/-- How a transfer stands to its events.  A record that is for one queue is assigned to
that queue and no other. -/
structure Phase.Follows (told : List (Event α)) (phase : Phase α) (batch : List α)
    (queue? : Option Nat) : Prop where
  given_eq : told.filterMap Event.given? = [(batch, queue?)]
  accounts : phase.Accounts batch (told.filterMap Event.landed?)
  places : phase.Places (told.filterMap Event.assigned?) (told.filterMap Event.landing?)
  direct : ∀ queue, queue? = some queue → told.filterMap Event.assigned? = [queue] ∧ phase.Placed

def Phase.Sound (told : List (Event α)) : Option (Phase α) → Prop
  | none => told = []
  | some phase => ∃ batch queue?, phase.Follows told batch queue?

/-- A reading has taken records, as many as it may. -/
def Reading.Has (taken : List α) (greatest : Nat) (batch : List α) : Prop :=
  taken = batch ∧ 1 ≤ batch.length ∧ batch.length ≤ max 1 greatest

/-- What a reading has taken is its batch.  One that answers that there will be no batch
has found its queue closed and empty. -/
def ReadStage.Sound (e : Exchange α) (r : Reading α) (taken : List α) : ReadStage α → Prop
  | waiting => taken = []
  | gathering batch | ended (some batch) => Reading.Has taken r.greatest batch
  | ended none => taken = [] ∧
      ∃ q, e.queue? r.queue = some q ∧ q.closed = true ∧ q.items = []

def Reading.Sound (e : Exchange α) (told : List (Event α)) : Option (Reading α) → Prop
  | none => told = []
  | some r => (∀ queue ∈ told.filterMap Event.source?, queue = r.queue) ∧
      r.stage.Sound e r (told.filterMap Event.taken?)

namespace Exchange

variable {e e' : Exchange α} {n : Nat} {told more : List (Event α)}

theorem queue_sound_step {q? q?' : Option (Queue α)} (hstep : QueueStep n q? more q?')
    (h : Queue.Sound told q?) : Queue.Sound (told ++ more) q?' := by
  cases hstep with
  | still => simpa using h
  | made requested =>
    obtain rfl : told = [] := h
    exact ⟨rfl, Nat.zero_le _, requested, rfl, rfl⟩
  | closed q => simpa [Queue.Sound, Queue.close] using h
  | @filled q r transfer record hpush =>
    obtain ⟨horder, -, requested, hrequested, hcapacity⟩ := h
    obtain ⟨-, hroom, rfl⟩ := Queue.push?_eq_some hpush
    refine ⟨?_, ?_, requested, ?_, hcapacity⟩
    · simp [List.filterMap_cons, Event.landed?, Event.taken?, horder]
    · simpa [Nat.succ_le_iff] using hroom
    · simpa [List.filterMap_cons, Event.requested?] using hrequested
  | @drained q r reading first htake =>
    obtain ⟨horder, hbound, requested, hrequested, hcapacity⟩ := h
    obtain ⟨record, rest, hitems, rfl, rfl⟩ := Queue.take?_one htake
    rw [hitems] at horder hbound
    refine ⟨?_, ?_, requested, ?_, hcapacity⟩
    · simp [List.filterMap_cons, Event.landed?, Event.taken?, horder]
    · exact Nat.le_of_succ_le hbound
    · simpa [List.filterMap_cons, Event.requested?] using hrequested

/-- A queue that is closed and empty stays so. -/
theorem drained_step {q : Queue α} {q?' : Option (Queue α)} (hstep : QueueStep n (some q) more q?')
    (hclosed : q.closed = true) (hempty : q.items = []) :
    ∃ q', q?' = some q' ∧ q'.closed = true ∧ q'.items = [] := by
  cases hstep with
  | still => exact ⟨q, rfl, hclosed, hempty⟩
  | closed => exact ⟨q.close, rfl, rfl, hempty⟩
  | filled transfer hpush =>
    obtain ⟨hopen, -⟩ := Queue.push?_eq_some hpush
    rw [hclosed] at hopen
    cases hopen
  | drained reading htake =>
    obtain ⟨record, rest, hitems, -⟩ := Queue.take?_one htake
    rw [hempty] at hitems
    cases hitems

theorem accounts_afterCheck {batch landed records : List α}
    (h : (Phase.checking records).Accounts batch landed) :
    (e.afterCheck records).Accounts batch landed := by
  cases records with
  | nil => exact (List.append_nil landed).symm.trans h
  | cons record rest =>
    simp only [afterCheck]
    by_cases hstopped : e.stopped = true
    · rw [if_pos hstopped]
      exact ⟨record, rest, h⟩
    · rw [if_neg hstopped]
      exact h

theorem places_afterCheck {assigned reached : List Nat} (h : assigned = reached)
    (records : List α) : (e.afterCheck records).Places assigned reached := by
  cases records with
  | nil => exact h
  | cons record rest =>
    simp only [afterCheck]
    by_cases hstopped : e.stopped = true
    · rw [if_pos hstopped]
      exact h
    · rw [if_neg hstopped]
      exact h

theorem phase_sound_step {phase? phase?' : Option (Phase α)}
    (hstep : PhaseStep e n phase? more phase?') (h : Phase.Sound told phase?) :
    Phase.Sound (told ++ more) phase?' := by
  cases hstep with
  | still => simpa using h
  | begun records =>
    obtain rfl : told = [] := h
    exact ⟨records, none, rfl, rfl, rfl, fun _ h => nomatch h⟩
  | directed queue record deadline =>
    obtain rfl : told = [] := h
    refine ⟨[record], some queue, rfl, rfl, rfl, fun other hother => ?_⟩
    rw [Option.some.inj hother]
    exact ⟨rfl, rfl⟩
  | checked records =>
    obtain ⟨batch, queue?, h⟩ := h
    rw [List.append_nil]
    refine ⟨batch, queue?, h.given_eq, accounts_afterCheck h.accounts,
      places_afterCheck h.places records, fun queue hqueue => ?_⟩
    obtain ⟨hassigned, hnone⟩ := h.direct queue hqueue
    obtain rfl : records = [] := hnone
    exact ⟨hassigned, trivial⟩
  | chosen patience record rest =>
    obtain ⟨batch, queue?, h⟩ := h
    have hsame : told.filterMap Event.assigned? = told.filterMap Event.landing? := h.places
    -- A record that is for one queue never comes to a look-up.
    have hlookup : queue? = none :=
      Option.eq_none_iff_forall_ne_some.mpr fun queue hqueue => (h.direct queue hqueue).2
    subst hlookup
    unfold afterChoice
    cases e.attached with
    | none =>
      rw [Option.toList_none, List.map_nil, List.append_nil]
      exact ⟨batch, none, h.given_eq, ⟨record, rest, h.accounts⟩, hsame, fun _ h => nomatch h⟩
    | some queue =>
      refine ⟨batch, none, ?_, ?_, ?_, fun _ h => nomatch h⟩
      · simpa [List.filterMap_cons, Event.given?] using h.given_eq
      · simpa [List.filterMap_cons, Phase.Accounts, Event.landed?] using h.accounts
      · simp [List.filterMap_cons, Phase.Places, Event.assigned?, Event.landing?, hsame]
  | pushed queue record rest deadline =>
    obtain ⟨batch, queue?, h⟩ := h
    have hrest : told.filterMap Event.landed? ++ record :: rest = batch := h.accounts
    have hlast : told.filterMap Event.assigned? = told.filterMap Event.landing? ++ [queue] :=
      h.places
    refine ⟨batch, queue?, ?_, ?_, ?_, fun other hother => ?_⟩
    · simpa [List.filterMap_cons, Event.given?] using h.given_eq
    · simpa [List.filterMap_cons, Phase.Accounts, Event.landed?] using hrest
    · simpa [List.filterMap_cons, Phase.Places, Event.assigned?, Event.landing?] using hlast
    · obtain ⟨hassigned, hnone⟩ := h.direct other hother
      refine ⟨?_, hnone⟩
      simpa [List.filterMap_cons, Event.assigned?] using hassigned
  | expired queue record rest deadline =>
    obtain ⟨batch, queue?, h⟩ := h
    rw [List.append_nil]
    exact ⟨batch, queue?, h.given_eq, ⟨record, rest, h.accounts⟩, ⟨queue, h.places⟩,
      fun other hother => ⟨(h.direct other hother).1, trivial⟩⟩
  | refused queue record rest deadline =>
    obtain ⟨batch, queue?, h⟩ := h
    rw [List.append_nil]
    exact ⟨batch, queue?, h.given_eq, ⟨record, rest, h.accounts⟩, ⟨queue, h.places⟩,
      fun other hother => ⟨(h.direct other hother).1, trivial⟩⟩

/-- What a reading says of a queue that is closed and empty stays true. -/
theorem reading_sound_congr {r? : Option (Reading α)} (h : Reading.Sound e told r?)
    (hqueues : ∀ (m : Nat) (q : Queue α), e.queue? m = some q → q.closed = true → q.items = [] →
      ∃ q', e'.queue? m = some q' ∧ q'.closed = true ∧ q'.items = []) :
    Reading.Sound e' told r? := by
  cases r? with
  | none => exact h
  | some r =>
    obtain ⟨hsource, hstage⟩ := h
    refine ⟨hsource, ?_⟩
    cases hr : r.stage with
    | waiting =>
      rw [hr] at hstage
      exact hstage
    | gathering batch =>
      rw [hr] at hstage
      exact hstage
    | ended batch? =>
      rw [hr] at hstage
      cases batch? with
      | some batch => exact hstage
      | none =>
        obtain ⟨htaken, q, hqueue, hclosed, hempty⟩ := hstage
        exact ⟨htaken, hqueues r.queue q hqueue hclosed hempty⟩

theorem reading_sound_step {r? r?' : Option (Reading α)} (hstep : StageStep e n r? more r?')
    (h : Reading.Sound e told r?) : Reading.Sound e (told ++ more) r?' := by
  cases hstep with
  | still => simpa using h
  | begun queue greatest =>
    obtain rfl : told = [] := h
    exact ⟨by simp, rfl⟩
  | @received queue greatest record =>
    obtain ⟨hsource, hnone⟩ := h
    have htaken : told.filterMap Event.taken? = [] := hnone
    refine ⟨?_, ?_⟩
    · simpa [List.filterMap_cons, Event.source?, or_imp, forall_and] using hsource
    · simp only [List.filterMap_append, htaken]
      exact ⟨rfl, Nat.le_refl 1, Nat.le_max_left 1 greatest⟩
  | dried greatest hqueue hempty hclosed =>
    obtain ⟨hsource, hnone⟩ := h
    rw [List.append_nil]
    exact ⟨hsource, hnone, _, hqueue, hclosed, hempty⟩
  | @gathered queue greatest batch hroom record =>
    obtain ⟨hsource, htaken, hpos, hmax⟩ := h
    refine ⟨?_, ?_, ?_, ?_⟩
    · simpa [List.filterMap_cons, Event.source?, or_imp, forall_and] using hsource
    · simp [Event.taken?, htaken]
    · simp
    · simp only [List.length_append, List.length_singleton]
      show batch.length + 1 ≤ max 1 greatest
      omega
  | answered queue greatest batch => simpa [Reading.Sound, ReadStage.Sound] using h

end Exchange

/-! ## Runs -/

namespace Traffic

def start (patience : Duration) : Traffic α := { exchange := { patience := patience } }

def step? (t : Traffic α) (action : Exchange.Action α) : Option (Traffic α) := do
  let next ← t.exchange.step? action
  return ⟨next, t.events ++ t.exchange.events action⟩

/-- The traffic after more actions, if they are possible one after the other. -/
def run? : List (Exchange.Action α) → Traffic α → Option (Traffic α)
  | [], t => some t
  | action :: rest, t => (t.step? action).bind (run? rest)

variable {t t' : Traffic α} {action : Exchange.Action α} {actions : List (Exchange.Action α)}

theorem step_of_step? (h : t.step? action = some t') :
    t.exchange.Step action t'.exchange ∧ t'.events = t.events ++ t.exchange.events action := by
  obtain ⟨next, hnext, ht⟩ := Option.bind_eq_some_iff.mp h
  cases ht
  exact ⟨Exchange.step_of_step? hnext, rfl⟩

/-- Keeping the events changes nothing. -/
theorem exists_run? {e : Exchange α} (h : t.exchange.run? actions = some e) :
    ∃ t', t.run? actions = some t' ∧ t'.exchange = e := by
  induction actions generalizing t with
  | nil => exact ⟨t, rfl, Option.some.inj h⟩
  | cons action rest ih =>
    unfold Exchange.run? at h
    rw [List.foldlM_cons] at h
    obtain ⟨next, hnext, hrest⟩ := Option.bind_eq_some_iff.mp h
    obtain ⟨t', ht', hexchange⟩ := ih (t := ⟨next, t.events ++ t.exchange.events action⟩) hrest
    refine ⟨t', ?_, hexchange⟩
    have hstep : t.step? action = some ⟨next, t.events ++ t.exchange.events action⟩ := by
      rw [step?, hnext]
      rfl
    rw [run?, hstep]
    exact ht'

theorem run_invariant (Inv : Traffic α → Prop)
    (step : ∀ t t' action, Inv t → t.step? action = some t' → Inv t') (h : Inv t)
    (hrun : t.run? actions = some t') : Inv t' := by
  induction actions generalizing t with
  | nil =>
    cases hrun
    exact h
  | cons action rest ih =>
    obtain ⟨next, hnext, hrest⟩ := Option.bind_eq_some_iff.mp hrun
    exact ih (step t next action h hnext) hrest

/-- What has happened stays so. -/
theorem mem_events_run {event : Event α} (hrun : t.run? actions = some t')
    (h : event ∈ t.events) : event ∈ t'.events := by
  refine run_invariant (fun t => event ∈ t.events) (fun _ _ _ hevent hstep => ?_) h hrun
  obtain ⟨-, hevents⟩ := step_of_step? hstep
  rw [hevents]
  exact List.mem_append_left _ hevent

def ofQueue (t : Traffic α) (n : Nat) : List (Event α) := Event.about Event.queue? n t.events

def ofTransfer (t : Traffic α) (n : Nat) : List (Event α) :=
  Event.about Event.transfer? n t.events

def ofReading (t : Traffic α) (n : Nat) : List (Event α) :=
  Event.about Event.reading? n t.events

structure Sound (t : Traffic α) : Prop where
  queue (n : Nat) : Queue.Sound (t.ofQueue n) (t.exchange.queue? n)
  phase (n : Nat) : Phase.Sound (t.ofTransfer n) (t.exchange.phase? n)
  reading (n : Nat) : Reading.Sound t.exchange (t.ofReading n) t.exchange.readings[n]?

theorem sound_start (patience : Duration) : (start patience : Traffic α).Sound :=
  ⟨fun _ => rfl, fun _ => rfl, fun _ => rfl⟩

theorem sound_step (h : t.Sound) (hstep : t.step? action = some t') : t'.Sound := by
  obtain ⟨hstep, hevents⟩ := step_of_step? hstep
  have hqueue (n : Nat) := Exchange.queueStep_of_step hstep n
  refine ⟨fun n => ?_, fun n => ?_, fun n => ?_⟩
  · unfold ofQueue
    rw [hevents, Event.about_append]
    exact Exchange.queue_sound_step (hqueue n) (h.queue n)
  · unfold ofTransfer
    rw [hevents, Event.about_append]
    exact Exchange.phase_sound_step (Exchange.phaseStep_of_step hstep n) (h.phase n)
  · -- The step may change the queue that a reading found closed and empty.
    unfold ofReading
    rw [hevents, Event.about_append]
    refine Exchange.reading_sound_congr (Exchange.reading_sound_step
      (Exchange.stageStep_of_step hstep n) (h.reading n)) fun m q hq hclosed hempty => ?_
    have hm := hqueue m
    rw [hq] at hm
    exact Exchange.drained_step hm hclosed hempty

theorem sound_run {patience : Duration} (hrun : (start patience).run? actions = some t) :
    t.Sound :=
  run_invariant Sound (fun _ _ _ h hstep => sound_step h hstep) (sound_start patience) hrun

end Traffic

end RecordArchive
