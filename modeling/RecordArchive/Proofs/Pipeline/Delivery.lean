import RecordArchive.Proofs.Sample
import RecordArchive.Proofs.Source.Content

/-!
# Delivery from a source to a sink

Records get into the queue in the order in which the source gives them, and out of
it, batch by batch, in the order in which they got in.  `Accounted` says where every
record of a run is.  It holds for any order of the actions of the two workers and
the supervisor.  The main statement is `delivered_of_ended`, about runs in which
both workers have ended and the sink's worker has not failed.
-/

namespace RecordArchive

variable {σ : Type}

/-! ## Where the records are -/

/-- Of the stream of a source so much is written, and so much is still to come.  A
worker that ended without a fault has written all of it. -/
def Intake.Continues (stream written : List Record) : Intake → Prop
  | reading source => stream = written ++ source.stream
  | checking rest source => stream = written ++ (rest ++ source.stream)
  | writing record rest source _ => stream = written ++ (record :: rest ++ source.stream)
  | ended (.ok ()) => written = stream
  | ended (.error _) => written <+: stream

/-- The records that the sink's worker has in its hands. -/
def Outlet.batch : Outlet → List Record
  | gathering batch | holding batch => batch
  | waiting | ended _ => []

/-- Every record of the stream that was written was handed over, or is in the hands
of the sink's worker, or is in the queue. -/
structure Passage.Accounted (stream : List Record) (t : Passage σ) : Prop where
  intake : t.state.intake.Continues stream t.written
  written_eq : t.written = t.handed.flatten ++ (t.state.outlet.batch ++ t.state.queue.items)
  drained : t.state.outlet = .ended (.ok ()) →
    t.state.queue.isDrained = true ∧ t.state.coordinator.current = none

namespace Intake

variable {stream written : List Record}

theorem Continues.written_prefix {intake : Intake} (h : intake.Continues stream written) :
    written <+: stream := by
  cases intake with
  | reading source => exact ⟨_, Eq.symm h⟩
  | checking rest source => exact ⟨_, Eq.symm h⟩
  | writing record rest source deadline => exact ⟨_, Eq.symm h⟩
  | ended outcome =>
    cases outcome with
    | error fault => exact h
    | ok u =>
      have hall : written = stream := h
      subst hall
      exact List.prefix_refl _

theorem continues_afterPull {source : Source}
    (h : (Intake.reading source).Continues stream written) :
    (Pipeline.afterPull source).Continues stream written := by
  simp only [Continues] at h
  unfold Pipeline.afterPull
  cases hnext : source.next with
  | error fault => exact ⟨_, h.symm⟩
  | ok answer =>
    obtain ⟨batch?, rest⟩ := answer
    cases batch? with
    | none =>
      rw [Source.stream_of_next_none hnext, List.append_nil] at h
      exact h.symm
    | some batch =>
      rw [Source.stream_of_next_some hnext] at h
      exact h

/-- A record that is not delivered ends its worker with a fault. -/
theorem continues_undelivered (h : written <+: stream) (settings : PipelineSettings)
    {delivery : Delivery} (hd : delivery ≠ .complete) :
    (Pipeline.undelivered settings delivery).Continues stream written := by
  cases delivery with
  | complete => exact absurd rfl hd
  | timedOut | closed | inactive => exact h

theorem continues_afterCheck {rest : List Record} {source : Source}
    (h : (Intake.checking rest source).Continues stream written) (settings : PipelineSettings)
    (p : Pipeline σ) : (Pipeline.afterCheck settings p rest source).Continues stream written := by
  cases rest with
  | nil => exact h
  | cons record rest =>
    simp only [Pipeline.afterCheck]
    split
    · exact continues_undelivered h.written_prefix settings (by decide)
    · exact h

end Intake

/-! ## One action -/

namespace Passage

variable {stream : List Record} {t : Passage σ}

theorem accounted_of_intake (h : t.Accounted stream) {intake : Intake}
    (hi : intake.Continues stream t.written) :
    Accounted stream ⟨t.written, t.handed, { t.state with intake := intake }⟩ :=
  ⟨hi, h.written_eq, h.drained⟩

/-- The source's worker writes a record.  It cannot once the sink's worker has ended,
since the queue is closed then. -/
theorem accounted_of_write (h : t.Accounted stream) {record : Record} {rest : List Record}
    {source : Source} {deadline : Duration} {queue : Queue Record}
    (hi : (Intake.writing record rest source deadline).Continues stream t.written)
    (hpush : t.state.queue.push? record = some queue) :
    Accounted stream ⟨t.written ++ [record], t.handed,
      { t.state with queue := queue, intake := .checking rest source }⟩ where
  intake := by
    simp only [Intake.Continues] at hi ⊢
    rw [hi, List.append_assoc]
    rfl
  written_eq := by
    rw [Queue.items_push? hpush, ← List.append_assoc, ← List.append_assoc]
    rw [List.append_assoc t.handed.flatten, ← h.written_eq]
  drained := fun hended => by
    have hclosed := (h.drained hended).1
    simp only [Queue.isDrained, Bool.and_eq_true] at hclosed
    simp [Queue.push?, hclosed.1] at hpush

/-- The sink's worker moves records from the queue into its hands, or none. -/
theorem accounted_of_outlet (h : t.Accounted stream) {outlet : Outlet} {queue : Queue Record}
    (hmoved : outlet.batch ++ queue.items = t.state.outlet.batch ++ t.state.queue.items)
    (hopen : outlet ≠ .ended (.ok ())) :
    Accounted stream
      ⟨t.written, t.handed, { t.state with queue := queue, outlet := outlet }⟩ where
  intake := h.intake
  written_eq := by
    rw [hmoved]
    exact h.written_eq
  drained := fun hended => absurd hended hopen

/-- The sink's worker calls the coordinator, which takes what it has in its hands. -/
theorem accounted_of_call (h : t.Accounted stream) {handed : List (List Record)} {next : Outlet}
    {fault : ArchiveError → RunFault} {α : Type}
    {result : Except ArchiveError α × Coordinator σ}
    (hhanded : handed.flatten = t.state.outlet.batch) (hnext : next.batch = [])
    (hended : next = .ended (.ok ()) →
      t.state.queue.isDrained = true ∧ result.2.current = none) :
    Accounted stream ⟨t.written, t.handed ++ handed, t.state.afterCall next fault result⟩ where
  intake := h.intake
  written_eq := by
    have hempty : (t.state.afterCall next fault result).outlet.batch = [] := by
      rcases t.state.outlet_afterCall next fault result with hout | ⟨e, hout⟩
      · rw [hout, hnext]
      · rw [hout]
        rfl
    rw [List.flatten_append, hhanded, hempty, List.nil_append, List.append_assoc]
    exact h.written_eq
  drained := fun hout => by
    rcases t.state.outlet_afterCall next fault result with hsame | ⟨e, hfailed⟩
    · exact hended (hsame.symm.trans hout)
    · rw [hfailed] at hout
      cases hout

theorem accounted_start (source : Source) (queueCapacity : Nat) (c : Coordinator σ) :
    Accounted source.stream { state := Pipeline.start source queueCapacity c } :=
  ⟨rfl, rfl, fun hout => by cases hout⟩

variable [ObjectStore σ] {settings : PipelineSettings} {t' : Passage σ}

/-- Whatever happens next, every record stays accounted for. -/
theorem accounted_step (h : t.Accounted stream) {action : Pipeline.Action}
    (hstep : t.step? settings action = some t') : t'.Accounted stream := by
  -- An action moves either the source's worker or the sink's, and the queue with it.
  have hintake := h.intake
  obtain ⟨written, handed, state⟩ := t'
  obtain ⟨hstate, hwritten, hhanded⟩ := step_of_step? hstep
  simp only at hstate hwritten hhanded
  subst hwritten hhanded
  cases hstate with
  | pull hin =>
    rw [hin] at hintake
    simp only [Pipeline.written, Pipeline.handed, List.append_nil]
    exact accounted_of_intake h (Intake.continues_afterPull hintake)
  | check hin =>
    rw [hin] at hintake
    simp only [Pipeline.written, Pipeline.handed, List.append_nil]
    exact accounted_of_intake h (Intake.continues_afterCheck hintake settings t.state)
  | write hin hpush =>
    rw [hin] at hintake
    simp only [Pipeline.written, Pipeline.handed, List.append_nil, hin]
    exact accounted_of_write h hintake hpush
  | expire | refuse =>
    simp only [Pipeline.written, Pipeline.handed, List.append_nil]
    exact accounted_of_intake h
      (Intake.continues_undelivered hintake.written_prefix settings (by decide))
  | take hout htake =>
    simp only [Pipeline.written, Pipeline.handed, List.append_nil]
    refine accounted_of_outlet h ?_ (by simp)
    rw [hout, ← Queue.items_take? htake]
    rfl
  | gather hout hroom htake =>
    simp only [Pipeline.written, Pipeline.handed, List.append_nil]
    refine accounted_of_outlet h ?_ (by simp)
    rw [hout, ← Queue.items_take? htake]
    simp only [Outlet.batch, List.append_assoc]
  | hold hout hfull =>
    simp only [Pipeline.written, Pipeline.handed, List.append_nil]
    refine accounted_of_outlet h ?_ (by simp)
    rw [hout]
    rfl
  | accept hout =>
    simp only [Pipeline.written, Pipeline.handed, List.append_nil, hout]
    refine accounted_of_call h ?_ rfl (by simp)
    rw [hout]
    exact List.append_nil _
  | tick hout =>
    simp only [Pipeline.written, List.append_nil]
    refine accounted_of_call h ?_ rfl (by simp)
    rw [hout]
    rfl
  | finish hout hdrained =>
    simp only [Pipeline.written, List.append_nil]
    refine accounted_of_call h ?_ rfl fun _ =>
      ⟨hdrained, Coordinator.current_shutdown settings.sink t.state.coordinator⟩
    rw [hout]
    rfl
  | stop | pass | abort =>
    simp only [Pipeline.written, Pipeline.handed, List.append_nil]
    exact ⟨h.intake, h.written_eq, h.drained⟩
  | close =>
    simp only [Pipeline.written, Pipeline.handed, List.append_nil]
    refine ⟨h.intake, h.written_eq, fun hout => ?_⟩
    obtain ⟨hdrained, hgone⟩ := h.drained hout
    simp only [Queue.isDrained, Bool.and_eq_true] at hdrained
    exact ⟨hdrained.2, hgone⟩

/-! ## Whole runs -/

theorem accounted_run? {source : Source} {queueCapacity : Nat} {c : Coordinator σ}
    {actions : List Pipeline.Action}
    (hrun : run? settings actions { state := .start source queueCapacity c } = some t) :
    t.Accounted source.stream :=
  run_invariant (Accounted source.stream) (fun _ _ _ h hstep => accounted_step h hstep)
    (accounted_start source queueCapacity c) hrun

/-- When both workers have ended and the sink's worker has not failed, the batches
that were handed over are the records that were written, in order, and these are the
first records of the source; nothing is in the queue and no buffer is active.  If the
source's worker has not failed either they are all the records of the source, unless
there are some and its batches never have room for a line. -/
theorem delivered_of_ended (settings : PipelineSettings) (source : Source) (queueCapacity : Nat)
    (c : Coordinator σ) {actions : List Pipeline.Action} {outcome : Except RunFault Unit}
    (hrun : run? settings actions { state := .start source queueCapacity c } = some t)
    (hin : t.state.intake = .ended outcome) (hout : t.state.outlet = .ended (.ok ())) :
    t.handed.flatten = t.written ∧ t.written <+: source.content ∧
      (outcome = .ok () →
        (t.written = source.content ↔ source.stalls = false ∨ source.content = [])) ∧
      t.state.queue.items = [] ∧ t.state.coordinator.current = none := by
  have h : t.Accounted source.stream :=
    run_invariant (Accounted source.stream) (fun _ _ _ h hstep => accounted_step h hstep)
      (accounted_start source queueCapacity c) hrun
  obtain ⟨hdrained, hgone⟩ := h.drained hout
  simp only [Queue.isDrained, Bool.and_eq_true, List.isEmpty_iff] at hdrained
  have hwritten := h.written_eq
  rw [hout, hdrained.2] at hwritten
  refine ⟨?_, h.intake.written_prefix.trans source.stream_prefix, ?_, hdrained.2, hgone⟩
  · rw [hwritten]
    exact (List.append_nil _).symm
  · intro hok
    have hintake := h.intake
    rw [hin, hok] at hintake
    have hall : t.written = source.stream := hintake
    rw [hall, Source.stream_eq_content_iff]

/-- Two records, of which the second is written while the first is gathered. -/
theorem delivered_of_ended_listed :
    ∃ t, run? Sample.pipeline Sample.interleaved (Sample.start Sample.listed) = some t ∧
      t.state.intake = .ended (.ok ()) ∧ t.state.outlet = .ended (.ok ()) ∧
      t.handed.flatten = Sample.listed.content ∧ t.state.coordinator.current = none := by
  obtain ⟨t, hrun, hin, hout⟩ : ∃ t,
      run? Sample.pipeline Sample.interleaved (Sample.start Sample.listed) = some t ∧
        t.state.intake = .ended (.ok ()) ∧ t.state.outlet = .ended (.ok ()) :=
    ⟨_, rfl, rfl, rfl⟩
  obtain ⟨hhanded, -, hall, -, hgone⟩ :=
    delivered_of_ended Sample.pipeline Sample.listed 4 (.start Sample.world) hrun hin hout
  exact ⟨t, hrun, hin, hout, hhanded.trans ((hall rfl).mpr (Or.inl rfl)), hgone⟩

/-- A file has a line, and the run ends well without its record. -/
theorem narrow_file_undelivered :
    ∃ t, run? Sample.pipeline [.pull, .stop, .close, .finish] (Sample.start Sample.narrow) =
        some t ∧
      t.state.intake = .ended (.ok ()) ∧ t.state.outlet = .ended (.ok ()) ∧
      t.written = [] ∧ Sample.narrow.content ≠ [] := by
  refine ⟨_, rfl, rfl, rfl, rfl, ?_⟩
  have hblank : Text.isBlank (Source.lineText [97, lineFeed]) = false := by decide
  simp [Sample.narrow, Source.content, Source.recordOf?, hblank]

end Passage

end RecordArchive
