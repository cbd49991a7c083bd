import RecordArchive.Proofs.Connector.Order
import RecordArchive.Proofs.Connector.Schedule
import RecordArchive.Proofs.Connector.Stopping

/-!
# Output into a queue that nobody reads

A transfer is followed record by record through a connector that runs while nobody else
reads, writes or stops anything.  It fills the room that the queue has, and if there is more
it waits once, for the first record that finds none: `output_undrained`.
-/

namespace RecordArchive

variable {α : Type}

/-! ## Time -/

namespace Duration

/-- A deadline that has come when the wait begins is that moment. -/
theorem ceilMillisecond_add_eq {now patience : Duration}
    (h : (now + patience).ceilMillisecond ≤ now) : (now + patience).ceilMillisecond = now := by
  have hreached := le_ceilMillisecond (now + patience)
  rw [le_def] at h hreached
  rw [nanoseconds_add] at hreached
  show Duration.mk (now + patience).ceilMillisecond.nanoseconds = ⟨now.nanoseconds⟩
  congr 1
  omega

theorem add_sub_of_not_le {a b : Duration} (h : ¬a ≤ b) : b + (a - b) = a := by
  rw [le_def] at h
  show Duration.mk (b.nanoseconds + (a.nanoseconds - b.nanoseconds)) = a
  rw [Nat.add_sub_cancel' (by omega)]

theorem ceilMillisecond_ofMilliseconds (count more : Nat) :
    (ofMilliseconds count + ofMilliseconds more).ceilMillisecond =
      ofMilliseconds (count + more) := by
  rw [((whole_ofMilliseconds count).add (whole_ofMilliseconds more)).ceilMillisecond_eq]
  exact congrArg Duration.mk (Nat.add_mul count more 1000000).symm

end Duration

/-! ## Room -/

namespace Queue

/-- Records that can still be put into a queue that nobody reads. -/
def room (q : Queue α) : Nat := q.capacity - q.items.length

def fill (q : Queue α) (records : List α) : Queue α := { q with items := q.items ++ records }

theorem fill_nil (q : Queue α) : q.fill [] = q := by
  show { q with items := q.items ++ [] } = q
  rw [List.append_nil]

theorem fill_fill (q : Queue α) (records more : List α) :
    (q.fill records).fill more = q.fill (records ++ more) := by
  show { q with items := q.items ++ records ++ more } = q.fill (records ++ more)
  rw [List.append_assoc]
  rfl

theorem room_fill (q : Queue α) (records : List α) :
    (q.fill records).room = q.room - records.length := by
  show q.capacity - (q.items ++ records).length = q.capacity - q.items.length - records.length
  rw [List.length_append, Nat.sub_add_eq]

theorem hasRoom_iff {q : Queue α} : q.hasRoom = true ↔ 0 < q.room := by
  show decide (q.items.length < q.capacity) = true ↔ 0 < q.capacity - q.items.length
  rw [decide_eq_true_iff]
  omega

theorem push?_of_hasRoom {q : Queue α} (hopen : q.closed = false) (hroom : q.hasRoom = true)
    (record : α) : q.push? record = some (q.fill [record]) := by
  have hboth : (!q.closed && q.hasRoom) = true := by
    rw [hopen, hroom]
    rfl
  rw [push?, if_pos hboth, fill]

end Queue

namespace Turns

variable {t : Turns α} {n queue fuel : Nat} {patience now : Duration} {q : Queue α}
  {phase : Phase α} {record : α} {rest : List α}

/-! ## A transfer that is alone -/

/-- A transfer through a connector that runs, at a moment when nobody else is about to go
on.  Its queue is the one that is attached, and open. -/
structure Alone (n queue : Nat) (patience now : Duration) (q : Queue α) (phase : Phase α)
    (t : Turns α) : Prop where
  running : t.exchange.stopped = false
  attached_eq : t.exchange.attached = some queue
  queue_eq : t.exchange.queue? queue = some q
  isOpen : q.closed = false
  transfer_eq : t.exchange.transfers[n]? = some ⟨patience, phase⟩
  now_eq : t.exchange.now = now
  ready_eq : t.ready = []

theorem Alone.phase_eq (h : Alone n queue patience now q phase t) :
    t.exchange.phase? n = some phase := by
  show t.exchange.transfers[n]?.map (·.phase) = some phase
  rw [h.transfer_eq]
  rfl

theorem Alone.delivery_eq {delivery : Delivery}
    (h : Alone n queue patience now q (.finished delivery) t) :
    t.delivery? n = some delivery := by
  simp only [delivery?, h.phase_eq]

theorem transfer_setPhase {e : Exchange α} (h : e.transfers[n]? = some ⟨patience, phase⟩)
    (next : Phase α) : (e.setPhase n next).transfers[n]? = some ⟨patience, next⟩ := by
  show (e.transfers.modify n fun t => { t with phase := next })[n]? = some ⟨patience, next⟩
  rw [List.getElem?_modify_eq, h]
  rfl

theorem exchange_perform {action : Exchange.Action α} {next : Exchange α}
    (h : t.exchange.step? action = some next) : t.perform action = { t with exchange := next } := by
  rw [perform, h]
  rfl

/-- An action after which the transfer alone stands elsewhere. -/
theorem Alone.perform (h : Alone n queue patience now q phase t) {action : Exchange.Action α}
    {next : Phase α} (hstep : t.exchange.step? action = some (t.exchange.setPhase n next)) :
    Alone n queue patience now q next (t.perform action) := by
  rw [exchange_perform hstep]
  exact ⟨h.running, h.attached_eq, h.queue_eq, h.isOpen, transfer_setPhase h.transfer_eq next,
    h.now_eq, h.ready_eq⟩

/-! ## Its actions -/

theorem Alone.complete (h : Alone n queue patience now q (.checking []) t) :
    Alone n queue patience now q (.finished .complete) (t.perform (.check n)) := by
  apply h.perform
  simp only [Exchange.step?, h.phase_eq, Exchange.afterCheck]

theorem Alone.check (h : Alone n queue patience now q (.checking (record :: rest)) t) :
    Alone n queue patience now q (.choosing record rest) (t.perform (.check n)) := by
  apply h.perform
  simp only [Exchange.step?, h.phase_eq, Exchange.afterCheck, h.running, if_neg Bool.false_ne_true]

theorem Alone.choose (h : Alone n queue patience now q (.choosing record rest) t) :
    Alone n queue patience now q
      (.writing queue record rest (now + patience).ceilMillisecond) (t.perform (.choose n)) := by
  apply h.perform
  simp only [Exchange.step?, h.transfer_eq, Exchange.afterChoice, h.attached_eq,
    Exchange.deadline, h.now_eq]

theorem Alone.push {deadline : Duration}
    (h : Alone n queue patience now q (.writing queue record rest deadline) t)
    (hroom : q.hasRoom = true) :
    Alone n queue patience now (q.fill [record]) (.checking rest) (t.perform (.push n)) := by
  have hpush := Queue.push?_of_hasRoom h.isOpen hroom record
  have hstep : t.exchange.step? (.push n) = some
      ((t.exchange.setQueue queue (q.fill [record])).setPhase n (.checking rest)) := by
    simp only [Exchange.step?, h.phase_eq, h.queue_eq, bind, Option.bind, hpush, pure]
  rw [exchange_perform hstep]
  exact ⟨h.running, h.attached_eq, Exchange.queue?_setQueue_self h.queue_eq _, h.isOpen,
    transfer_setPhase h.transfer_eq _, h.now_eq, h.ready_eq⟩

theorem Alone.expire {deadline : Duration}
    (h : Alone n queue patience now q (.writing queue record rest deadline) t)
    (hdue : deadline ≤ now) :
    t.exchange.step? (.expire n) = some (t.exchange.setPhase n (.finished .timedOut)) := by
  simp only [Exchange.step?, h.phase_eq, h.now_eq, if_pos hdue]

/-! ## Going on alone -/

theorem proceed_checking (h : t.exchange.phase? n = some (.checking rest)) :
    proceed n (fuel + 1) t = proceed n fuel (t.perform (.check n)) := by
  simp only [proceed, h]

theorem proceed_choosing (h : t.exchange.phase? n = some (.choosing record rest)) :
    proceed n (fuel + 1) t = proceed n fuel (t.perform (.choose n)) := by
  simp only [proceed, h]

theorem proceed_finished {delivery : Delivery}
    (h : t.exchange.phase? n = some (.finished delivery)) : proceed n fuel t = t := by
  cases fuel with
  | zero => rfl
  | succ fuel => simp only [proceed, h]

theorem callUnlessCalled_of_nil (h : t.tickets = []) (queue : Nat) :
    t.callUnlessCalled queue = t := by
  cases t with
  | mk exchange tickets ready =>
    subst h
    simp [callUnlessCalled, call, callFirst]

/-- The first two actions for a record lead to the queue. -/
theorem Alone.reach (h : Alone n queue patience now q (.checking (record :: rest)) t)
    (halone : t.tickets = []) : ∃ reached : Turns α,
      (∀ fuel, proceed n (fuel + 2) t = proceed n fuel reached) ∧ reached.tickets = [] ∧
      Alone n queue patience now q
        (.writing queue record rest (now + patience).ceilMillisecond) reached := by
  refine ⟨(t.perform (.check n)).perform (.choose n), fun fuel => ?_, halone, h.check.choose⟩
  rw [proceed_checking h.phase_eq, proceed_choosing h.check.phase_eq]

/-- A record that finds room lands. -/
theorem Alone.land (h : Alone n queue patience now q (.checking (record :: rest)) t)
    (halone : t.tickets = []) (hroom : 0 < q.room) : ∃ landed : Turns α,
      (∀ fuel, proceed n (fuel + 3) t = proceed n fuel landed) ∧ landed.tickets = [] ∧
      Alone n queue patience now (q.fill [record]) (.checking rest) landed := by
  obtain ⟨reached, hreached, htickets, hwriting⟩ := h.reach halone
  have hhas := Queue.hasRoom_iff.mpr hroom
  refine ⟨reached.perform (.push n), fun fuel => ?_, htickets, hwriting.push hhas⟩
  have htickets' : (reached.perform (.push n)).tickets = [] := htickets
  rw [hreached]
  simp only [proceed, hwriting.phase_eq, hwriting.queue_eq, hwriting.isOpen, hhas, if_true,
    if_neg Bool.false_ne_true, callUnlessCalled_of_nil htickets', ite_self]

/-- As many records as there is room for land one after the other. -/
theorem Alone.landAll (written : List α)
    (h : Alone n queue patience now q (.checking (written ++ rest)) t)
    (halone : t.tickets = []) (hroom : written.length ≤ q.room) : ∃ landed : Turns α,
      (∀ fuel, proceed n (3 * written.length + fuel) t = proceed n fuel landed) ∧
      landed.tickets = [] ∧
      Alone n queue patience now (q.fill written) (.checking rest) landed := by
  induction written generalizing t q with
  | nil =>
    refine ⟨t, fun fuel => ?_, halone, ?_⟩
    · rw [List.length_nil, Nat.mul_zero, Nat.zero_add]
    · rw [Queue.fill_nil]
      exact h
  | cons record written ih =>
    rw [List.length_cons] at hroom
    obtain ⟨first, hfirst, htickets, hnext⟩ := h.land halone (by omega)
    have hroom' : written.length ≤ (q.fill [record]).room := by
      rw [Queue.room_fill, List.length_singleton]
      omega
    obtain ⟨landed, hlanded, htickets', hall⟩ := ih hnext htickets hroom'
    refine ⟨landed, fun fuel => ?_, htickets', ?_⟩
    · have hfuel : 3 * (record :: written).length + fuel = 3 * written.length + fuel + 3 := by
        rw [List.length_cons]
        omega
      rw [hfuel, hfirst, hlanded]
    · rw [Queue.fill_fill] at hall
      exact hall

/-! ## Waiting alone -/

/-- How a transfer stands for which there is no room: it has given up at its deadline, or it
waits with a ticket until then. -/
inductive Stalled (n queue : Nat) (patience deadline : Duration) (q : Queue α)
    (t : Turns α) : Prop
  | expired (hended : Alone n queue patience deadline q (.finished .timedOut) t)
  | waiting {now : Duration} {record : α} {rest : List α}
    (hticket : t.tickets = [⟨n, queue, false⟩]) (hearly : ¬deadline ≤ now)
    (hwaits : Alone n queue patience now q (.writing queue record rest deadline) t)

/-- A record that finds no room stalls the transfer. -/
theorem Alone.stall (h : Alone n queue patience now q (.checking (record :: rest)) t)
    (halone : t.tickets = []) (hfull : q.room = 0) (fuel : Nat) :
    Stalled n queue patience (now + patience).ceilMillisecond q (proceed n (fuel + 3) t) := by
  obtain ⟨reached, hreached, htickets, hwriting⟩ := h.reach halone
  have hhas : q.hasRoom = false := by
    rw [← Bool.not_eq_true, Queue.hasRoom_iff]
    omega
  rw [hreached]
  simp only [proceed, hwriting.phase_eq, hwriting.queue_eq, hwriting.isOpen, hhas,
    if_neg Bool.false_ne_true, hwriting.now_eq]
  by_cases hdue : (now + patience).ceilMillisecond ≤ now
  · have hended := hwriting.perform (hwriting.expire hdue)
    rw [if_pos hdue, proceed_finished hended.phase_eq, Duration.ceilMillisecond_add_eq hdue]
    exact .expired hended
  · rw [if_neg hdue, htickets]
    exact .waiting rfl hdue ⟨hwriting.running, hwriting.attached_eq, hwriting.queue_eq,
      hwriting.isOpen, hwriting.transfer_eq, hwriting.now_eq, hwriting.ready_eq⟩

theorem settle_of_nil (h : t.ready = []) : t.settle = t := by
  unfold settle settleFrom
  rw [h]

theorem awaitFrom_of_ended {delivery : Delivery}
    (h : t.exchange.phase? n = some (.finished delivery)) : awaitFrom n fuel t = t := by
  cases fuel with
  | zero => rfl
  | succ fuel => simp only [awaitFrom, delivery?, h]

/-- Time passes up to the deadline of the one transfer that waits, which then ends. -/
theorem Alone.advance {deadline : Duration}
    (h : Alone n queue patience now q (.writing queue record rest deadline) t)
    (hticket : t.tickets = [⟨n, queue, false⟩]) (hearly : ¬deadline ≤ now) :
    Alone n queue patience deadline q (.finished .timedOut)
      (t.advance (deadline - t.exchange.now)) := by
  have hlater : Alone n queue patience deadline q (.writing queue record rest deadline)
      (t.perform (.advance (deadline - t.exchange.now))) := by
    refine ⟨h.running, h.attached_eq, h.queue_eq, h.isOpen, h.transfer_eq, ?_, h.ready_eq⟩
    show t.exchange.now + (deadline - t.exchange.now) = deadline
    rw [h.now_eq, Duration.add_sub_of_not_le hearly]
  have hticket' : (t.perform (.advance (deadline - t.exchange.now))).tickets =
      [⟨n, queue, false⟩] := hticket
  have hexpire := hlater.expire (Nat.le_refl _)
  rw [Turns.advance]
  generalize t.perform (.advance (deadline - t.exchange.now)) = later at hlater hticket' hexpire
  have hended : later.expireDue = { later with
      exchange := later.exchange.setPhase n (.finished .timedOut) }.dropTicket n := by
    simp only [expireDue, hticket', List.foldl_cons, List.foldl_nil, hexpire]
  have hready : later.expireDue.ready = [] := by
    rw [hended]
    exact hlater.ready_eq
  rw [settle_of_nil hready, hended]
  exact ⟨hlater.running, hlater.attached_eq, hlater.queue_eq, hlater.isOpen,
    transfer_setPhase hlater.transfer_eq _, hlater.now_eq, hlater.ready_eq⟩

/-- Whoever waits for a stalled transfer sees it time out at its deadline. -/
theorem Stalled.await {deadline : Duration} (h : Stalled n queue patience deadline q t) :
    Alone n queue patience deadline q (.finished .timedOut) (t.await n) := by
  cases h with
  | expired hended =>
    rw [Turns.await, awaitFrom_of_ended hended.phase_eq]
    exact hended
  | waiting hticket hearly hwaits =>
    have hended := hwaits.advance hticket hearly
    have hdelivery : t.delivery? n = none := by simp only [delivery?, hwaits.phase_eq]
    have hdeadline : t.nextDeadline? = some deadline := by
      simp [nextDeadline?, hticket, deadline?, hwaits.phase_eq]
    rw [Turns.await, awaitFrom]
    simp only [hdelivery, hdeadline]
    rw [awaitFrom_of_ended hended.phase_eq]
    exact hended

theorem Stalled.ready_eq {deadline : Duration} (h : Stalled n queue patience deadline q t) :
    t.ready = [] := by
  cases h with
  | expired hended => exact hended.ready_eq
  | waiting hticket hearly hwaits => exact hwaits.ready_eq

/-! ## Output -/

/-- A transfer that is begun while nobody waits goes on alone. -/
theorem alone_begun (hrunning : t.exchange.state = .running)
    (hattached : t.exchange.attached = some queue) (hqueue : t.exchange.queue? queue = some q)
    (hopen : q.closed = false) (htickets : t.tickets = []) (hready : t.ready = [])
    (records : List α) : ∃ first : Turns α,
      t.output records = (proceed t.nextTransfer (3 * records.length + 2) first).settle ∧
      first.tickets = [] ∧ Alone t.nextTransfer queue t.exchange.patience t.exchange.now q
        (.checking records) first := by
  have hstopped : t.exchange.stopped = false := by
    cases hstopped : t.exchange.stopped with
    | false => rfl
    | true =>
      rw [Exchange.state_of_stopped hstopped] at hrunning
      cases hrunning
  have hbegun : Alone t.nextTransfer queue t.exchange.patience t.exchange.now q
      (.checking records) (t.perform (.output records)) :=
    ⟨hstopped, hattached, hqueue, hopen, List.getElem?_concat_length, rfl, hready⟩
  have htickets' : (t.perform (.output records)).tickets = [] := htickets
  refine ⟨(t.perform (.output records)).dropTicket t.nextTransfer, ?_, ?_, ?_⟩
  · simp only [Turns.output, resume, hbegun.phase_eq, pending]
  · rw [dropTicket, htickets', List.filter_nil]
  · exact ⟨hbegun.running, hbegun.attached_eq, hbegun.queue_eq, hbegun.isOpen,
      hbegun.transfer_eq, hbegun.now_eq, hbegun.ready_eq⟩

/-- Records for which there is room get in before anybody has to wait. -/
theorem Alone.settle_fits {records : List α}
    (h : Alone n queue patience now q (.checking records) t) (halone : t.tickets = [])
    (hfits : records.length ≤ q.room) :
    Alone n queue patience now (q.fill records) (.finished .complete)
      (proceed n (3 * records.length + 2) t).settle := by
  have hall : Alone n queue patience now q (.checking (records ++ [])) t := by
    rw [List.append_nil]
    exact h
  obtain ⟨landed, hlanded, -, hchecking⟩ := hall.landAll records halone hfits
  have hended := hchecking.complete
  rw [hlanded, proceed_checking hchecking.phase_eq, proceed_finished hended.phase_eq,
    settle_of_nil hended.ready_eq]
  exact hended

/-- Of more records the first get in, and whoever waits for the others sees them time out. -/
theorem Alone.await_left {records : List α}
    (h : Alone n queue patience now q (.checking records) t) (halone : t.tickets = [])
    (hleft : q.room < records.length) :
    Alone n queue patience (now + patience).ceilMillisecond (q.fill (records.take q.room))
      (.finished .timedOut) ((proceed n (3 * records.length + 2) t).settle.await n) := by
  obtain ⟨record, rest, hrest⟩ : ∃ record rest, records.drop q.room = record :: rest := by
    apply List.exists_cons_of_ne_nil
    intro hnil
    rw [List.drop_eq_nil_iff] at hnil
    omega
  have hall : Alone n queue patience now q
      (.checking (records.take q.room ++ record :: rest)) t := by
    rw [← hrest, List.take_append_drop]
    exact h
  have htaken : (records.take q.room).length = q.room := by
    rw [List.length_take]
    omega
  obtain ⟨landed, hlanded, htickets, hchecking⟩ :=
    hall.landAll (records.take q.room) halone (Nat.le_of_eq htaken)
  have hfull : (q.fill (records.take q.room)).room = 0 := by
    rw [Queue.room_fill, htaken, Nat.sub_self]
  have hfuel : 3 * records.length + 2 =
      3 * (records.take q.room).length + (3 * (records.length - q.room) - 1 + 3) := by
    rw [htaken]
    omega
  have hstalled := hchecking.stall htickets hfull (3 * (records.length - q.room) - 1)
  rw [hfuel, hlanded, settle_of_nil hstalled.ready_eq]
  exact hstalled.await

end Turns

/-- A transfer that has ended lands nothing any more. -/
theorem Traffic.landedBy_of_finished {t t' : Traffic α} {actions : List (Exchange.Action α)}
    {n : Nat} {delivery : Delivery} (hrun : t.run? actions = some t')
    (h : t.exchange.phase? n = some (.finished delivery)) : t'.landedBy n = t.landedBy n := by
  have hinv := run_invariant
    (fun s => s.exchange.phase? n = some (.finished delivery) ∧ s.landedBy n = t.landedBy n)
    (fun s s' action hs hstep => by
      obtain ⟨hstep, hevents⟩ := step_of_step? hstep
      have hphase := Exchange.phaseStep_of_step hstep n
      rw [hs.1] at hphase
      unfold landedBy ofTransfer at hs ⊢
      rw [hevents, Event.about_append]
      generalize Event.about Event.transfer? n (s.exchange.events action) = more at hphase ⊢
      generalize s'.exchange.phase? n = after at hphase ⊢
      cases hphase
      rw [List.append_nil]
      exact ⟨rfl, hs.2⟩) ⟨h, rfl⟩ hrun
  exact hinv.2

/-- Output through a running connector into an open queue while nobody else reads, writes or
stops anything.  What there is room for gets in, in order.  If that is all, the answer comes at
once; else it comes at the deadline of the first record that finds no room, and neither that
record nor a later one gets in then or at any time, whatever happens next.

The deadline is the moment at which a timer set for the patience goes off, and that is always a
whole millisecond.  So the clause about a wait of exactly the patience is for a clock that shows
a whole millisecond when the output begins; from any other moment the wait goes on to the first
whole millisecond after it. -/
theorem Turns.output_undrained {t : Turns α} {queue requested : Nat} {q : Queue α}
    (hrunning : t.exchange.state = .running) (hattached : t.exchange.attached = some queue)
    (hqueue : t.exchange.queue? queue = some q) (hopen : q.closed = false)
    (hcapacity : q.capacity = (Queue.ofCapacity requested : Queue α).capacity)
    (htickets : t.tickets = []) (hready : t.ready = []) (names : PipelineNames)
    (records : List α) :
    let room := max 1 requested - q.items.length
    let transfer := t.nextTransfer
    let begun := t.output records
    let done := begun.await transfer
    let patience := t.exchange.patience
    (records.length ≤ room →
      begun.delivery? transfer = some .complete ∧ done = begun ∧
        begun.exchange.now = t.exchange.now ∧
        begun.exchange.queue? queue = some { q with items := q.items ++ records } ∧
        Delivery.complete.output names patience = .ok ()) ∧
    (room < records.length →
      done.delivery? transfer = some .timedOut ∧
        done.exchange.now = (t.exchange.now + patience).ceilMillisecond ∧
        (∀ clock wait, t.exchange.now = .ofMilliseconds clock →
          patience = .ofMilliseconds wait → done.exchange.now = .ofMilliseconds (clock + wait)) ∧
        done.exchange.queue? queue = some { q with items := q.items ++ records.take room } ∧
        Delivery.timedOut.output names patience =
          .error (.connectorTimeout names.sink names.source patience) ∧
        ∀ actions later, (⟨done.exchange, []⟩ : Traffic α).run? actions = some later →
          later.landedBy transfer = []) := by
  intro room transfer begun done patience
  have hroom : q.room = room := by
    show q.capacity - q.items.length = max 1 requested - q.items.length
    rw [hcapacity]
    rfl
  obtain ⟨first, houtput, halone, hfirst⟩ :=
    alone_begun hrunning hattached hqueue hopen htickets hready records
  have hbegun : begun = (proceed transfer (3 * records.length + 2) first).settle := houtput
  refine ⟨fun hfits => ?_, fun hleft => ?_⟩
  · have hended := hfirst.settle_fits halone (hroom ▸ hfits)
    rw [← hbegun] at hended
    exact ⟨hended.delivery_eq, awaitFrom_of_ended hended.phase_eq, hended.now_eq,
      hended.queue_eq, rfl⟩
  · have hended := hfirst.await_left halone (hroom ▸ hleft)
    rw [← hbegun, hroom] at hended
    refine ⟨hended.delivery_eq, hended.now_eq, fun clock wait hclock hwait => ?_,
      hended.queue_eq, rfl, fun actions later hrun =>
        Traffic.landedBy_of_finished hrun hended.phase_eq⟩
    show (begun.await transfer).exchange.now = .ofMilliseconds (clock + wait)
    rw [hended.now_eq, hclock]
    show (Duration.ofMilliseconds clock + patience).ceilMillisecond = .ofMilliseconds (clock + wait)
    rw [hwait, Duration.ceilMillisecond_ofMilliseconds]

/-- A connector whose records wait for a tenth of a second, on a queue that was to have no
room at all. -/
def Turns.tight : Turns Nat :=
  ((⟨{ patience := .ofMilliseconds 100 }, [], []⟩ : Turns Nat).act (.make 0)).act (.start 0)

/-- There is room for one record after all.  The second of three waits out its time. -/
theorem Turns.output_undrained_tight :
    tight.exchange.state = .running ∧ tight.exchange.attached = some 0 ∧
      tight.exchange.queue? 0 = some (.ofCapacity 0) ∧ tight.tickets = [] ∧ tight.ready = [] ∧
      ((tight.output [1, 2, 3]).await tight.nextTransfer).delivery? tight.nextTransfer =
        some .timedOut ∧
      ((tight.output [1, 2, 3]).await tight.nextTransfer).exchange.now = .ofMilliseconds 100 ∧
      (((tight.output [1, 2, 3]).await tight.nextTransfer).exchange.queue? 0).map (·.items) =
        some [1] := by
  have hattached : tight.exchange.attached = some 0 := rfl
  have hqueue : tight.exchange.queue? 0 = some (.ofCapacity 0) := rfl
  have hclock : tight.exchange.now = .ofMilliseconds 0 := rfl
  have hpatience : tight.exchange.patience = .ofMilliseconds 100 := rfl
  have hcapacity : (Queue.ofCapacity 0 : Queue Nat).capacity =
      (Queue.ofCapacity 0 : Queue Nat).capacity := rfl
  obtain ⟨-, hleft⟩ := output_undrained rfl hattached hqueue rfl hcapacity rfl rfl
    ⟨"ingest", "archive"⟩ [1, 2, 3]
  obtain ⟨hdelivery, -, htime, hitems, -⟩ := hleft (by decide)
  refine ⟨rfl, hattached, hqueue, rfl, rfl, hdelivery, htime 0 100 hclock hpatience, ?_⟩
  rw [hitems]
  rfl

end RecordArchive
