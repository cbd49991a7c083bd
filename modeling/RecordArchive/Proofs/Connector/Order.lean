import Mathlib.Data.List.Dedup
import Mathlib.Data.List.Lattice
import Mathlib.Data.List.Nodup
import Mathlib.Data.List.Pairwise
import RecordArchive.Proofs.Connector.Traffic

/-!
# First in, first out

What any number of tasks write through a connector and its queues is read in the order
in which it landed, without loss and without duplicates, in whatever order the tasks go
on and whatever becomes of their writes.  The main statement is `records_in_order`.
-/

namespace RecordArchive

variable {α : Type}

/-! ## Readings that take turns -/

/-- Nobody comes back after somebody else. -/
def TakeTurns (order : List Nat) : Prop := ∀ i j, List.Sublist [i, j, i] order → j = i

namespace TakeTurns

variable {i j : Nat} {rest : List Nat}

theorem tail (h : TakeTurns (i :: rest)) : TakeTurns rest :=
  fun k l hsub => h k l (hsub.cons i)

/-- Who is not done goes on at once. -/
theorem head_eq (h : TakeTurns (i :: j :: rest)) (hmem : i ∈ j :: rest) : j = i := by
  rcases List.mem_cons.mp hmem with heq | hrest
  · exact heq.symm
  · apply h i j
    exact ((List.singleton_sublist.mpr hrest).cons_cons j).cons_cons i

theorem exists_dedup_eq (h : TakeTurns (i :: rest)) :
    ∃ more, (i :: rest).dedup = i :: more := by
  induction rest with
  | nil => exact ⟨[], rfl⟩
  | cons j rest ih =>
    by_cases hmem : i ∈ j :: rest
    · obtain rfl := h.head_eq hmem
      rw [List.dedup_cons_of_mem hmem]
      exact ih h.tail
    · exact ⟨_, List.dedup_cons_of_notMem hmem⟩

end TakeTurns

/-- Entries of numbers that take turns are those of the first number, then those of the next
one, and so on. -/
theorem map_snd_eq_flatMap {β : Type} {entries : List (Nat × β)}
    (h : TakeTurns (entries.map Prod.fst)) :
    entries.map Prod.snd = (entries.map Prod.fst).dedup.flatMap fun i =>
      (entries.filter (·.1 = i)).map Prod.snd := by
  induction entries with
  | nil => rfl
  | cons entry rest ih =>
    obtain ⟨i, b⟩ := entry
    have hothers (order : List Nat) (hnot : i ∉ order) :
        (order.flatMap fun j => (((i, b) :: rest).filter (·.1 = j)).map Prod.snd) =
          order.flatMap fun j => (rest.filter (·.1 = j)).map Prod.snd := by
      refine List.flatMap_congr fun j hj => ?_
      have hne : i ≠ j := fun heq => hnot (heq ▸ hj)
      rw [List.filter_cons_of_neg (by simpa using hne)]
    have hturns : TakeTurns (rest.map Prod.fst) := TakeTurns.tail h
    show b :: rest.map Prod.snd = _
    rw [ih hturns, List.map_cons]
    by_cases hmem : i ∈ rest.map Prod.fst
    · -- The next entry is of the same number, and the block goes on.
      obtain ⟨more, hmore⟩ : ∃ more, (rest.map Prod.fst).dedup = i :: more := by
        cases hrest : rest.map Prod.fst with
        | nil =>
          rw [hrest] at hmem
          cases hmem
        | cons j order =>
          rw [List.map_cons, hrest] at h
          rw [hrest] at hmem hturns
          obtain rfl := h.head_eq hmem
          exact hturns.exists_dedup_eq
      have hnot : i ∉ more := by
        have hnodup := List.nodup_dedup (rest.map Prod.fst)
        rw [hmore] at hnodup
        exact (List.nodup_cons.mp hnodup).1
      rw [List.dedup_cons_of_mem hmem, hmore, List.flatMap_cons, List.flatMap_cons,
        hothers more hnot, List.filter_cons_of_pos (by simp)]
      rfl
    · have hnone : rest.filter (·.1 = i) = [] := by
        refine List.filter_eq_nil_iff.mpr fun entry hentry => ?_
        intro heq
        exact hmem (List.mem_map.mpr ⟨entry, hentry, of_decide_eq_true heq⟩)
      have hnot : i ∉ (rest.map Prod.fst).dedup := fun hi => hmem (List.mem_dedup.mp hi)
      rw [List.dedup_cons_of_notMem hmem, List.flatMap_cons, hothers _ hnot,
        List.filter_cons_of_pos (by simp), hnone]
      rfl

/-! ## What is seen of the traffic -/

/-- The records that are given. -/
def Event.records : Event α → List α
  | given _ records _ => records
  | _ => []

/-- A record that is taken, with the number of the reading. -/
def Event.taking? : Event α → Option (Nat × α)
  | taken reading _ record => some (reading, record)
  | _ => none

/-- What a reading has taken. -/
def Reading.batch (r : Reading α) : List α :=
  match r.stage with
  | .waiting | .ended none => []
  | .gathering batch | .ended (some batch) => batch

namespace Traffic

/-- All records that were given, in order. -/
def given (t : Traffic α) : List α := t.events.flatMap Event.records

def landedIn (t : Traffic α) (queue : Nat) : List α := (t.ofQueue queue).filterMap Event.landed?

def takenFrom (t : Traffic α) (queue : Nat) : List α := (t.ofQueue queue).filterMap Event.taken?

/-- The readings that took records from a queue, one for every record. -/
def takers (t : Traffic α) (queue : Nat) : List Nat :=
  (t.ofQueue queue).filterMap Event.reading?

def landedBy (t : Traffic α) (transfer : Nat) : List α :=
  (t.ofTransfer transfer).filterMap Event.landed?

/-- The queues in which the records of a transfer have landed. -/
def reached (t : Traffic α) (transfer : Nat) : List Nat :=
  (t.ofTransfer transfer).filterMap Event.landing?

/-- The queues that were attached when a transfer looked them up for its records, or the
one for which its record is. -/
def assigned (t : Traffic α) (transfer : Nat) : List Nat :=
  (t.ofTransfer transfer).filterMap Event.assigned?

def takenBy (t : Traffic α) (reading : Nat) : List α :=
  (t.ofReading reading).filterMap Event.taken?

def batch (t : Traffic α) (reading : Nat) : List α :=
  (t.exchange.readings[reading]?.map Reading.batch).getD []

/-- A queue gives the records in the order in which they landed, and keeps no more of
them than it may.  Where readings of it take turns, what was taken are their batches, one
after the other. -/
structure QueueInOrder (t : Traffic α) (n : Nat) (q : Queue α) : Prop where
  landed_eq : t.landedIn n = t.takenFrom n ++ q.items
  bounded : ∃ requested, .made n requested ∈ t.events ∧ q.items.length ≤ max 1 requested
  batches : TakeTurns (t.takers n) → t.takenFrom n = (t.takers n).dedup.flatMap t.batch

/-- The records of a transfer land in order, each in the queue that was looked up for it:
all of them if the transfer was complete, and else those before one that was missed.
A record that was missed is in no queue, unless it was given twice. -/
structure TransferInOrder (t : Traffic α) (n : Nat) (phase : Phase α) (batch : List α)
    (queue? : Option Nat) : Prop where
  given : .given n batch queue? ∈ t.events
  landed : t.landedBy n <+: batch
  placed : t.reached n <+: t.assigned n
  direct : ∀ queue, queue? = some queue → t.assigned n = [queue]
  complete : phase = .finished .complete → t.landedBy n = batch
  incomplete : ∀ delivery, phase = .finished delivery → delivery ≠ .complete →
    ∃ missed rest, t.landedBy n ++ missed :: rest = batch ∧
      (t.given.Nodup → ∀ queue, missed ∉ t.landedIn queue)

/-- A reading answers what it has taken, which is one record at least and no more than
it may, or that its queue is closed and empty. -/
structure ReadingInOrder (t : Traffic α) (n : Nat) (r : Reading α) : Prop where
  source : ∀ queue record, .taken n queue record ∈ t.events → queue = r.queue
  taken : t.takenBy n = r.batch
  answered : ∀ batch, r.stage = .ended (some batch) →
    1 ≤ batch.length ∧ batch.length ≤ max 1 r.greatest
  dried : r.stage = .ended none →
    ∃ q, t.exchange.queue? r.queue = some q ∧ q.closed = true ∧ q.items = []

end Traffic

/-! ## Readings -/

theorem ReadStage.Sound.taken_eq {e : Exchange α} {r : Reading α} {taken : List α}
    (h : r.stage.Sound e r taken) : taken = r.batch := by
  unfold Reading.batch
  cases hstage : r.stage with
  | waiting =>
    rw [hstage] at h
    exact h
  | gathering batch =>
    rw [hstage] at h
    exact h.1
  | ended batch? =>
    rw [hstage] at h
    cases batch? with
    | none => exact h.1
    | some batch => exact h.1

/-- What a reading takes from its queue is what it takes. -/
theorem filter_taking_eq {events : List (Event α)} {n reading : Nat}
    (h : ∀ queue ∈ (Event.about Event.reading? reading events).filterMap Event.source?,
      queue = n) :
    (((Event.about Event.queue? n events).filterMap Event.taking?).filter
        (·.1 = reading)).map Prod.snd =
      (Event.about Event.reading? reading events).filterMap Event.taken? := by
  induction events with
  | nil => rfl
  | cons event rest ih =>
    cases event with
    | taken r queue record =>
      simp only [Event.about_cons, Event.reading?, Event.queue?, Option.some.injEq] at h ⊢
      by_cases hr : r = reading
      · simp only [hr, if_true, List.filterMap_cons, Event.source?, List.forall_mem_cons] at h ⊢
        obtain ⟨rfl, hrest⟩ := h
        simpa [List.filterMap_cons, Event.taking?, Event.taken?] using ih hrest
      · simp only [hr, if_false] at h ⊢
        by_cases hn : queue = n
        · simpa [hn, hr, List.filterMap_cons, Event.taking?] using ih h
        · simpa [hn] using ih h
    | made queue _ | landed _ queue _ =>
      simp only [Event.about_cons, Event.reading?, Event.queue?, Option.some.injEq,
        reduceCtorEq, if_false] at h ⊢
      by_cases hn : queue = n
      · simpa [hn, List.filterMap_cons, Event.taking?] using ih h
      · simpa [hn] using ih h
    | given | assigned => exact ih h

namespace Traffic

variable {t : Traffic α}

theorem Sound.readingInOrder (h : t.Sound) {n : Nat} {r : Reading α}
    (hr : t.exchange.readings[n]? = some r) : t.ReadingInOrder n r := by
  have hreading := h.reading n
  rw [hr] at hreading
  obtain ⟨hsource, hstage⟩ := hreading
  refine ⟨fun queue record hevent => ?_, hstage.taken_eq, fun batch hbatch => ?_, fun hnone => ?_⟩
  · refine hsource queue (List.mem_filterMap.mpr ⟨.taken n queue record, ?_, rfl⟩)
    exact Event.mem_about.mpr ⟨hevent, rfl⟩
  · rw [hbatch] at hstage
    exact hstage.2
  · rw [hnone] at hstage
    exact hstage.2

theorem taken_of_mem_takers {n reading : Nat} (h : reading ∈ t.takers n) :
    ∃ record, .taken reading n record ∈ t.events := by
  obtain ⟨event, habout, hreading⟩ := List.mem_filterMap.mp h
  obtain ⟨hevent, hqueue⟩ := Event.mem_about.mp habout
  cases event with
  | taken reading queue record =>
    cases hreading
    cases hqueue
    exact ⟨record, hevent⟩
  | made | given | assigned | landed => cases hreading

/-- What was taken from a queue, by readings that took turns. -/
theorem Sound.takenFrom_eq (h : t.Sound) {n : Nat} (hturns : TakeTurns (t.takers n)) :
    t.takenFrom n = (t.takers n).dedup.flatMap t.batch := by
  have hrecords : t.takenFrom n = ((t.ofQueue n).filterMap Event.taking?).map Prod.snd := by
    rw [List.map_filterMap]
    exact List.filterMap_congr fun event _ => by cases event <;> rfl
  have hreaders : t.takers n = ((t.ofQueue n).filterMap Event.taking?).map Prod.fst := by
    rw [List.map_filterMap]
    exact List.filterMap_congr fun event _ => by cases event <;> rfl
  rw [hreaders] at hturns
  rw [hrecords, map_snd_eq_flatMap hturns, ← hreaders]
  refine List.flatMap_congr fun i hi => ?_
  obtain ⟨record, htaken⟩ := taken_of_mem_takers (List.mem_dedup.mp hi)
  have hmem : .taken i n record ∈ Event.about Event.reading? i t.events :=
    Event.mem_about.mpr ⟨htaken, rfl⟩
  have hreading := h.reading i
  show _ = (t.exchange.readings[i]?.map Reading.batch).getD []
  cases hr : t.exchange.readings[i]? with
  | none =>
    rw [hr] at hreading
    rw [show Event.about Event.reading? i t.events = [] from hreading] at hmem
    cases hmem
  | some r =>
    rw [hr] at hreading
    obtain ⟨hsource, hstage⟩ := hreading
    -- The reading has taken a record from this queue, so this queue is its own.
    have hn : n = r.queue := hsource n (List.mem_filterMap.mpr ⟨_, hmem, rfl⟩)
    rw [ofQueue, filter_taking_eq (hn ▸ hsource)]
    exact hstage.taken_eq

theorem Sound.queueInOrder (h : t.Sound) {n : Nat} {q : Queue α}
    (hq : t.exchange.queue? n = some q) : t.QueueInOrder n q := by
  have hqueue := h.queue n
  rw [hq] at hqueue
  obtain ⟨horder, hbound, requested, hrequested, hcapacity⟩ := hqueue
  refine ⟨horder, ⟨requested, ?_, hcapacity ▸ hbound⟩, h.takenFrom_eq⟩
  have hmem : requested ∈ (t.ofQueue n).filterMap Event.requested? := by
    rw [hrequested]
    exact List.mem_singleton_self requested
  obtain ⟨event, habout, hmade⟩ := List.mem_filterMap.mp hmem
  obtain ⟨hevent, hn⟩ := Event.mem_about.mp habout
  cases event with
  | made queue capacity =>
    cases hn
    cases hmade
    exact hevent
  | given | assigned | landed | taken => cases hmade

end Traffic

/-! ## Transfers -/

theorem Phase.Accounts.landed_prefix {phase : Phase α} {batch landed : List α}
    (h : phase.Accounts batch landed) : landed <+: batch := by
  cases phase with
  | checking rest => exact ⟨rest, h⟩
  | choosing record rest => exact ⟨record :: rest, h⟩
  | writing queue record rest deadline => exact ⟨record :: rest, h⟩
  | finished delivery =>
    cases delivery with
    | complete =>
      obtain rfl : landed = batch := h
      exact List.prefix_refl landed
    | timedOut | closed | inactive =>
      obtain ⟨missed, rest, h⟩ := h
      exact ⟨missed :: rest, h⟩

theorem Phase.Places.reached_prefix {phase : Phase α} {assigned reached : List Nat}
    (h : phase.Places assigned reached) : reached <+: assigned := by
  cases phase with
  | checking rest | choosing record rest => exact ⟨[], (List.append_nil _).trans h.symm⟩
  | writing queue record rest deadline => exact ⟨[queue], h.symm⟩
  | finished delivery =>
    cases delivery with
    | complete | inactive => exact ⟨[], (List.append_nil _).trans h.symm⟩
    | timedOut | closed =>
      obtain ⟨queue, h⟩ := h
      exact ⟨[queue], h.symm⟩

namespace Traffic

variable {t : Traffic α} {n : Nat} {phase : Phase α} {batch : List α} {queue? : Option Nat}

theorem mem_given_iff :
    (batch, queue?) ∈ (t.ofTransfer n).filterMap Event.given? ↔
      .given n batch queue? ∈ t.events := by
  constructor
  · intro hmem
    obtain ⟨event, habout, hgiven⟩ := List.mem_filterMap.mp hmem
    obtain ⟨hevent, hn⟩ := Event.mem_about.mp habout
    cases event with
    | given transfer records queue? =>
      cases hn
      cases hgiven
      exact hevent
    | made | assigned | landed | taken => cases hgiven
  · intro hevent
    exact List.mem_filterMap.mpr ⟨_, Event.mem_about.mpr ⟨hevent, rfl⟩, rfl⟩

theorem given_mem (h : phase.Follows (t.ofTransfer n) batch queue?) :
    .given n batch queue? ∈ t.events := by
  apply mem_given_iff.mp
  rw [h.given_eq]
  exact List.mem_singleton_self _

/-- A transfer of which anything is told was begun. -/
theorem Sound.exists_follows (h : t.Sound) {event : Event α} (hevent : event ∈ t.ofTransfer n) :
    ∃ phase batch queue?, t.exchange.phase? n = some phase ∧
      phase.Follows (t.ofTransfer n) batch queue? := by
  have hsound := h.phase n
  cases hphase : t.exchange.phase? n with
  | none =>
    rw [hphase] at hsound
    rw [show t.ofTransfer n = [] from hsound] at hevent
    cases hevent
  | some phase =>
    rw [hphase] at hsound
    obtain ⟨batch, queue?, hfollows⟩ := hsound
    exact ⟨phase, batch, queue?, rfl, hfollows⟩

/-- A record that has landed anywhere was given with a transfer, which has landed it. -/
theorem Sound.landed_given (h : t.Sound) {record : α} {queue : Nat}
    (hrecord : record ∈ t.landedIn queue) :
    ∃ (m : Nat) (phase : Phase α) (batch : List α) (queue? : Option Nat),
      phase.Follows (t.ofTransfer m) batch queue? ∧ record ∈ t.landedBy m := by
  obtain ⟨event, habout, hlanded⟩ := List.mem_filterMap.mp hrecord
  obtain ⟨hevent, -⟩ := Event.mem_about.mp habout
  cases event with
  | landed m queue landed =>
    cases hlanded
    have hmem : .landed m queue record ∈ t.ofTransfer m := Event.mem_about.mpr ⟨hevent, rfl⟩
    obtain ⟨phase, batch, queue?, -, hfollows⟩ := h.exists_follows hmem
    exact ⟨m, phase, batch, queue?, hfollows, List.mem_filterMap.mpr ⟨_, hmem, rfl⟩⟩
  | made | given | assigned | taken => cases hlanded

/-- Where no record was given twice, one that a transfer missed has not landed. -/
theorem Sound.missed_notMem (h : t.Sound) (hfollows : phase.Follows (t.ofTransfer n) batch queue?)
    {missed : α} {rest : List α} (hbatch : t.landedBy n ++ missed :: rest = batch)
    (hnodup : t.given.Nodup) (queue : Nat) : missed ∉ t.landedIn queue := by
  intro hmissed
  obtain ⟨m, phase', batch', queue?', hfollows', hlanded⟩ := h.landed_given hmissed
  have hmem : missed ∈ batch' := hfollows'.accounts.landed_prefix.subset hlanded
  obtain ⟨hwhole, hapart⟩ := List.nodup_flatMap.mp hnodup
  by_cases hm : m = n
  · -- It would be in its own batch twice.
    subst hm
    have hnodup : batch.Nodup := hwhole _ (given_mem hfollows)
    rw [← hbatch] at hnodup
    exact (List.disjoint_of_nodup_append hnodup) hlanded List.mem_cons_self
  · -- It would be in the batches of two transfers.
    have hne : Event.given n batch queue? ≠ .given m batch' queue?' := fun heq =>
      hm (by cases heq; rfl)
    have : Std.Symm (Function.onFun List.Disjoint fun event : Event α => event.records) :=
      ⟨fun _ _ hdisjoint => List.Disjoint.symm hdisjoint⟩
    have hdisjoint : List.Disjoint batch batch' :=
      hapart.forall (given_mem hfollows) (given_mem hfollows') hne
    refine hdisjoint ?_ hmem
    rw [← hbatch]
    exact List.mem_append_right _ List.mem_cons_self

theorem Sound.transferInOrder (h : t.Sound) (hphase : t.exchange.phase? n = some phase) :
    ∃ batch queue?, t.TransferInOrder n phase batch queue? := by
  have hsound := h.phase n
  rw [hphase] at hsound
  obtain ⟨batch, queue?, hfollows⟩ := hsound
  refine ⟨batch, queue?, given_mem hfollows, hfollows.accounts.landed_prefix,
    hfollows.places.reached_prefix, fun queue hqueue => (hfollows.direct queue hqueue).1,
    fun hcomplete => ?_, fun delivery hdelivery hne => ?_⟩
  · subst hcomplete
    exact hfollows.accounts
  · subst hdelivery
    have hmissed : ∃ missed rest, t.landedBy n ++ missed :: rest = batch := by
      have haccounts := hfollows.accounts
      cases delivery with
      | complete => exact absurd rfl hne
      | timedOut | closed | inactive => exact haccounts
    obtain ⟨missed, rest, hbatch⟩ := hmissed
    exact ⟨missed, rest, hbatch, h.missed_notMem hfollows hbatch⟩

/-- After any actions of any number of tasks, in whatever order they were possible, every
queue, transfer and reading is in order.  A transfer is answered as a success exactly when
it was complete. -/
theorem records_in_order {patience : Duration} {actions : List (Exchange.Action α)}
    (hrun : (start patience).run? actions = some t) :
    (∀ n q, t.exchange.queue? n = some q → t.QueueInOrder n q) ∧
      (∀ n phase, t.exchange.phase? n = some phase →
        ∃ batch queue?, t.TransferInOrder n phase batch queue?) ∧
      (∀ n r, t.exchange.readings[n]? = some r → t.ReadingInOrder n r) ∧
      ∀ (delivery : Delivery) (names : PipelineNames) (patience : Duration),
        (delivery.output names patience = .ok () ↔ delivery = .complete) ∧
          (delivery.write patience = .ok () ↔ delivery = .complete) := by
  have hsound := sound_run hrun
  exact ⟨fun _ _ => hsound.queueInOrder, fun _ _ => hsound.transferInOrder,
    fun _ _ => hsound.readingInOrder,
    fun _ _ _ => ⟨Delivery.output_eq_ok_iff, Delivery.write_eq_ok_iff⟩⟩

/-- Two records on their way into a queue with room for one, a third that a producer writes in
between, and a reader. -/
def crowded : List (Exchange.Action Nat) := [.make 0, .start 0, .attach 0, .output [1, 2], .check 0,
  .choose 0, .push 0, .write 0 3 .zero, .expire 1, .read 0 8, .receive 0, .check 0, .choose 0,
  .answer 0, .push 0, .check 0]

/-- A record that finds no room in time, between two others that land. -/
theorem records_in_order_crowded : ∃ t : Traffic Nat, (start .zero).run? crowded = some t ∧
    t.landedIn 0 = [1, 2] ∧ t.takenFrom 0 = [1] ∧
    (∃ q, t.exchange.queue? 0 = some q ∧ t.QueueInOrder 0 q) ∧
    (∃ batch queue?, t.TransferInOrder 0 (.finished .complete) batch queue?) ∧
    (∃ batch queue?, t.TransferInOrder 1 (.finished .timedOut) batch queue?) ∧
    t.ReadingInOrder 0 ⟨0, 8, .ended (some [1])⟩ := by
  have hrun : (start .zero : Traffic Nat).run? crowded =
      some ⟨{ patience := .zero
              queues := [{ capacity := 1, items := [2], capacity_pos := by decide }]
              attached := some 0
              transfers := [⟨.zero, .finished .complete⟩, ⟨.zero, .finished .timedOut⟩]
              readings := [⟨0, 8, .ended (some [1])⟩] },
        [.made 0 0, .given 0 [1, 2] none, .assigned 0 0, .landed 0 0 1, .given 1 [3] (some 0),
          .assigned 1 0, .taken 0 0 1, .assigned 0 0, .landed 0 0 2]⟩ := rfl
  obtain ⟨hqueues, htransfers, hreadings, -⟩ := records_in_order hrun
  exact ⟨_, hrun, rfl, rfl, ⟨_, rfl, hqueues 0 _ rfl⟩, htransfers 0 _ rfl, htransfers 1 _ rfl,
    hreadings 0 _ rfl⟩

end Traffic

end RecordArchive
