import RecordArchive.Proofs.Connector.Step

/-!
# What a step does to one part of an exchange

A step changes at most one queue, one transfer and one reading.  `QueueStep`,
`PhaseStep` and `StageStep` tell of each part alone what can happen to it, together with
the events that concern it.  Invariants of runs are proved from them.
-/

namespace RecordArchive.Exchange

theorem getElem?_concat_of_ne {β : Type} {entries : List β} {n : Nat} (h : entries.length ≠ n)
    (entry : β) : (entries ++ [entry])[n]? = entries[n]? := by
  rcases Nat.lt_or_gt_of_ne h with hlt | hgt
  · rw [List.getElem?_eq_none (by simp; omega), List.getElem?_eq_none (by omega)]
  · exact List.getElem?_append_left hgt

variable {α : Type} {e e' : Exchange α} {action : Action α} {m n : Nat}

/-! ## Queues -/

theorem queue?_setQueue_self {q : Queue α} (h : e.queue? n = some q) (r : Queue α) :
    (e.setQueue n r).queue? n = some r := by
  obtain ⟨hlt, -⟩ := List.getElem?_eq_some_iff.mp h
  exact List.getElem?_set_self hlt

theorem queue?_setQueue_of_ne (h : m ≠ n) (e : Exchange α) (r : Queue α) :
    (e.setQueue m r).queue? n = e.queue? n :=
  List.getElem?_set_ne h

/-- What happens to a queue by its number, with the events that concern it. -/
inductive QueueStep (n : Nat) : Option (Queue α) → List (Event α) → Option (Queue α) → Prop
  | still (q? : Option (Queue α)) : QueueStep n q? [] q?
  | made (requested : Nat) :
    QueueStep n none [.made n requested] (some (.ofCapacity requested))
  | closed (q : Queue α) : QueueStep n (some q) [] (some q.close)
  | filled {q r : Queue α} (transfer : Nat) {record : α} (hpush : q.push? record = some r) :
    QueueStep n (some q) [.landed transfer n record] (some r)
  | drained {q r : Queue α} (reading : Nat) {first : List α}
    (htake : q.take? 1 = some (first, r)) :
    QueueStep n (some q) (first.map (.taken reading n)) (some r)

/-- A queue is replaced by an action all of whose events concern it. -/
theorem queueStep_setQueue {events : List (Event α)} {q r : Queue α} (hqueue : e.queue? m = some q)
    (hevents : ∀ event ∈ events, event.queue? = some m)
    (hstep : QueueStep m (some q) events (some r)) (n : Nat) :
    QueueStep n (e.queue? n) (Event.about Event.queue? n events) ((e.setQueue m r).queue? n) := by
  by_cases hn : m = n
  · subst hn
    rw [queue?_setQueue_self hqueue, hqueue, Event.about_self hevents]
    exact hstep
  · rw [queue?_setQueue_of_ne hn, Event.about_eq_nil fun event hevent => by
      rw [hevents event hevent]
      exact fun h => hn (Option.some.inj h)]
    exact .still _

theorem queueStep_of_step (h : Step e action e') (n : Nat) :
    QueueStep n (e.queue? n) (Event.about Event.queue? n (e.events action)) (e'.queue? n) := by
  cases h with
  | make capacity =>
    by_cases hn : e.queues.length = n
    · subst hn
      have hbefore : e.queue? e.queues.length = none := List.getElem?_eq_none (Nat.le_refl _)
      have hafter : { e with queues := e.queues ++ [Queue.ofCapacity capacity] }.queue?
          e.queues.length = some (.ofCapacity capacity) := List.getElem?_concat_length
      rw [hbefore, hafter, Event.about_self (by simp [events, Event.queue?])]
      exact .made capacity
    · have hafter : { e with queues := e.queues ++ [Queue.ofCapacity capacity] }.queue? n =
          e.queue? n := getElem?_concat_of_ne hn _
      rw [hafter, Event.about_eq_nil (by simp [events, Event.queue?, hn])]
      exact .still _
  | @close queue q hqueue => exact queueStep_setQueue hqueue (by simp) (.closed q) n
  | @receive reading queue greatest q left first hreading hqueue htake =>
    simp only [events, takings_eq hreading hqueue htake]
    exact queueStep_setQueue hqueue (by simp [Event.queue?]) (.drained reading htake) n
  | @finish reading queue greatest q hreading hqueue htake hclosed =>
    simp only [events, takings_eq_nil hreading hqueue htake]
    exact .still _
  | @gather reading queue greatest q left batch more hreading hroom hqueue htake =>
    simp only [events, takings_eq hreading hqueue htake]
    exact queueStep_setQueue hqueue (by simp [Event.queue?]) (.drained reading htake) n
  | @push transfer queue record rest deadline q filled hphase hqueue hpush =>
    simp only [events, hphase]
    exact queueStep_setQueue hqueue (by simp [Event.queue?]) (.filled transfer hpush) n
  | choose htransfer =>
    rw [Event.about_eq_nil (by simp [events, Event.queue?])]
    exact .still _
  | ignore | start | attach | stop | read | answer | output | write | check | expire | refuse |
    advance => exact .still _

/-! ## Transfers -/

theorem phase?_setPhase_self {phase : Phase α} (h : e.phase? n = some phase) (next : Phase α) :
    (e.setPhase n next).phase? n = some next := by
  unfold phase? at h
  unfold phase? setPhase
  obtain ⟨t, ht, -⟩ := Option.map_eq_some_iff.mp h
  rw [List.getElem?_modify_eq, ht]
  rfl

theorem phase?_setPhase_of_ne (h : m ≠ n) (e : Exchange α) (next : Phase α) :
    (e.setPhase m next).phase? n = e.phase? n :=
  congrArg (Option.map Transfer.phase) (List.getElem?_modify_ne _ _ h)

/-- What happens to a transfer by its number, with the events that concern it. -/
inductive PhaseStep (e : Exchange α) (n : Nat) :
    Option (Phase α) → List (Event α) → Option (Phase α) → Prop
  | still (phase? : Option (Phase α)) : PhaseStep e n phase? [] phase?
  | begun (records : List α) :
    PhaseStep e n none [.given n records none] (some (.checking records))
  | directed (queue : Nat) (record : α) (deadline : Duration) :
    PhaseStep e n none [.given n [record] (some queue), .assigned n queue]
      (some (.writing queue record [] deadline))
  | checked (records : List α) :
    PhaseStep e n (some (.checking records)) [] (some (e.afterCheck records))
  | chosen (patience : Duration) (record : α) (rest : List α) :
    PhaseStep e n (some (.choosing record rest)) (e.attached.toList.map (.assigned n))
      (some (e.afterChoice patience record rest))
  | pushed (queue : Nat) (record : α) (rest : List α) (deadline : Duration) :
    PhaseStep e n (some (.writing queue record rest deadline)) [.landed n queue record]
      (some (.checking rest))
  | expired (queue : Nat) (record : α) (rest : List α) (deadline : Duration) :
    PhaseStep e n (some (.writing queue record rest deadline)) [] (some (.finished .timedOut))
  | refused (queue : Nat) (record : α) (rest : List α) (deadline : Duration) :
    PhaseStep e n (some (.writing queue record rest deadline)) [] (some (.finished .closed))

/-- The phase of one transfer is set by an action all of whose events concern it. -/
theorem phaseStep_setPhase {events : List (Event α)} {before after : Phase α}
    (hsame : e'.transfers = e.transfers) (hbefore : e.phase? m = some before)
    (hevents : ∀ event ∈ events, event.transfer? = some m)
    (hstep : PhaseStep e m (some before) events (some after)) (n : Nat) :
    PhaseStep e n (e.phase? n) (Event.about Event.transfer? n events)
      ((e'.setPhase m after).phase? n) := by
  have hphase (n : Nat) : e'.phase? n = e.phase? n := by
    unfold phase?
    rw [hsame]
  by_cases hn : m = n
  · subst hn
    rw [phase?_setPhase_self ((hphase m).trans hbefore), hbefore, Event.about_self hevents]
    exact hstep
  · rw [phase?_setPhase_of_ne hn, hphase, Event.about_eq_nil fun event hevent => by
      rw [hevents event hevent]
      exact fun h => hn (Option.some.inj h)]
    exact .still _

/-- A transfer is begun by an action all of whose events concern it. -/
theorem phaseStep_append {events : List (Event α)} {t : Transfer α}
    (hevents : ∀ event ∈ events, event.transfer? = some e.transfers.length)
    (hstep : PhaseStep e e.transfers.length none events (some t.phase)) (n : Nat) :
    PhaseStep e n (e.phase? n) (Event.about Event.transfer? n events)
      ({ e with transfers := e.transfers ++ [t] }.phase? n) := by
  unfold phase?
  by_cases hn : e.transfers.length = n
  · subst hn
    rw [List.getElem?_eq_none (Nat.le_refl _), List.getElem?_concat_length,
      Event.about_self hevents]
    exact hstep
  · rw [getElem?_concat_of_ne hn, Event.about_eq_nil fun event hevent => by
      rw [hevents event hevent]
      exact fun h => hn (Option.some.inj h)]
    exact .still _

theorem phaseStep_of_step (h : Step e action e') (n : Nat) :
    PhaseStep e n (e.phase? n) (Event.about Event.transfer? n (e.events action))
      (e'.phase? n) := by
  cases h with
  | output records => exact phaseStep_append (by simp [events, Event.transfer?]) (.begun records) n
  | @write queue hqueue record patience =>
    exact phaseStep_append (by simp [events, Event.transfer?]) (.directed queue record _) n
  | check hphase => exact phaseStep_setPhase rfl hphase (by simp) (.checked _) n
  | @choose transfer patience record rest htransfer =>
    have hphase : e.phase? transfer = some (.choosing record rest) := by
      unfold phase?
      rw [htransfer]
      rfl
    exact phaseStep_setPhase rfl hphase (by simp [Event.transfer?])
      (.chosen patience record rest) n
  | @push transfer queue record rest deadline q filled hphase hqueue hpush =>
    simp only [events, hphase]
    exact phaseStep_setPhase rfl hphase (by simp [Event.transfer?])
      (.pushed queue record rest deadline) n
  | expire hphase hdue => exact phaseStep_setPhase rfl hphase (by simp) (.expired ..) n
  | refuse hphase hqueue hclosed =>
    exact phaseStep_setPhase rfl hphase (by simp) (.refused ..) n
  | @receive reading queue greatest q left first hreading hqueue htake =>
    rw [Event.about_eq_nil (by simp [events, takings_eq hreading hqueue htake, Event.transfer?])]
    exact .still _
  | @finish reading queue greatest q hreading hqueue htake hclosed =>
    rw [Event.about_eq_nil (by simp [events, takings_eq_nil hreading hqueue htake])]
    exact .still _
  | @gather reading queue greatest q left batch more hreading hroom hqueue htake =>
    rw [Event.about_eq_nil (by simp [events, takings_eq hreading hqueue htake, Event.transfer?])]
    exact .still _
  | make | ignore | start | attach | stop | close | read | answer | advance => exact .still _

/-! ## Readings -/

theorem readings_setStage_self {r : Reading α} (h : e.readings[n]? = some r)
    (stage : ReadStage α) : (e.setStage n stage).readings[n]? = some { r with stage := stage } := by
  unfold setStage
  rw [List.getElem?_modify_eq, h]
  rfl

theorem readings_setStage_of_ne (h : m ≠ n) (e : Exchange α) (stage : ReadStage α) :
    (e.setStage m stage).readings[n]? = e.readings[n]? :=
  List.getElem?_modify_ne _ _ h

/-- What happens to a reading by its number, with the events that concern it. -/
inductive StageStep (e : Exchange α) (n : Nat) :
    Option (Reading α) → List (Event α) → Option (Reading α) → Prop
  | still (r? : Option (Reading α)) : StageStep e n r? [] r?
  | begun (queue greatest : Nat) : StageStep e n none [] (some ⟨queue, greatest, .waiting⟩)
  | received {queue : Nat} (greatest : Nat) (record : α) :
    StageStep e n (some ⟨queue, greatest, .waiting⟩) [.taken n queue record]
      (some ⟨queue, greatest, .gathering [record]⟩)
  | dried {queue : Nat} (greatest : Nat) {q : Queue α} (hqueue : e.queue? queue = some q)
    (hempty : q.items = []) (hclosed : q.closed = true) :
    StageStep e n (some ⟨queue, greatest, .waiting⟩) [] (some ⟨queue, greatest, .ended none⟩)
  | gathered {queue greatest : Nat} {batch : List α} (hroom : batch.length < greatest)
    (record : α) :
    StageStep e n (some ⟨queue, greatest, .gathering batch⟩) [.taken n queue record]
      (some ⟨queue, greatest, .gathering (batch ++ [record])⟩)
  | answered (queue greatest : Nat) (batch : List α) :
    StageStep e n (some ⟨queue, greatest, .gathering batch⟩) []
      (some ⟨queue, greatest, .ended (some batch)⟩)

/-- The stage of one reading is set by an action all of whose events concern it. -/
theorem stageStep_setStage {events : List (Event α)} {r : Reading α} {stage : ReadStage α}
    (hsame : e'.readings = e.readings) (hbefore : e.readings[m]? = some r)
    (hevents : ∀ event ∈ events, event.reading? = some m)
    (hstep : StageStep e m (some r) events (some { r with stage := stage })) (n : Nat) :
    StageStep e n e.readings[n]? (Event.about Event.reading? n events)
      (e'.setStage m stage).readings[n]? := by
  by_cases hn : m = n
  · subst hn
    rw [readings_setStage_self (hsame ▸ hbefore), hbefore, Event.about_self hevents]
    exact hstep
  · rw [readings_setStage_of_ne hn, hsame, Event.about_eq_nil fun event hevent => by
      rw [hevents event hevent]
      exact fun h => hn (Option.some.inj h)]
    exact .still _

theorem stageStep_of_step (h : Step e action e') (n : Nat) :
    StageStep e n e.readings[n]? (Event.about Event.reading? n (e.events action))
      e'.readings[n]? := by
  cases h with
  | @read queue hqueue greatest =>
    by_cases hn : e.readings.length = n
    · subst hn
      rw [List.getElem?_eq_none (Nat.le_refl _), List.getElem?_concat_length]
      exact .begun queue greatest
    · rw [getElem?_concat_of_ne hn]
      exact .still _
  | @receive reading queue greatest q left first hreading hqueue htake =>
    obtain ⟨record, rest, -, hfirst, -⟩ := Queue.take?_one htake
    simp only [events, takings_eq hreading hqueue htake, hfirst]
    exact stageStep_setStage rfl hreading (by simp [Event.reading?])
      (.received greatest record) n
  | @finish reading queue greatest q hreading hqueue htake hclosed =>
    simp only [events, takings_eq_nil hreading hqueue htake]
    exact stageStep_setStage rfl hreading (by simp)
      (.dried greatest hqueue (Queue.take?_eq_none htake) hclosed) n
  | @gather reading queue greatest q left batch more hreading hroom hqueue htake =>
    obtain ⟨record, rest, -, hmore, -⟩ := Queue.take?_one htake
    simp only [events, takings_eq hreading hqueue htake, hmore]
    exact stageStep_setStage rfl hreading (by simp [Event.reading?])
      (.gathered hroom record) n
  | @answer reading queue greatest batch hreading hdone =>
    exact stageStep_setStage rfl hreading (by simp) (.answered queue greatest batch) n
  | push hphase hqueue hpush =>
    rw [Event.about_eq_nil (by simp [events, hphase, Event.reading?])]
    exact .still _
  | choose htransfer =>
    rw [Event.about_eq_nil (by simp [events, Event.reading?])]
    exact .still _
  | make | ignore | start | attach | stop | close | output | write | check | expire | refuse |
    advance => exact .still _

end RecordArchive.Exchange
