import RecordArchive.Proofs.Coordinator.Unhindered
import RecordArchive.Proofs.Pipeline.Calls
import RecordArchive.Proofs.Pipeline.Exhaustion
import RecordArchive.Proofs.Pipeline.Progress

/-!
# Quiet runs

A run is quiet when the pipeline is stopped only because a worker has ended, no write is
given up, and uploads are not cancelled.  Every quiet run can be brought to its end quietly:
`exists_quietRun?`.  Where the file can be read, the staging files serve and every record
can be encoded, its workers end without a fault, and if no upload was lost the objects are
the stream of the source: `stored_of_quietRun?`.
-/

namespace RecordArchive

variable {σ : Type}

namespace Pipeline

/-- Whether an action disturbs a run. -/
def disturbs (p : Pipeline σ) : Action → Bool
  | .stop => !p.intake.isEnded && !p.outlet.isEnded
  | .expire | .abort _ => true
  | .pull | .check | .write | .refuse | .take | .gather | .hold | .accept | .tick | .finish |
    .close | .pass _ => false

/-! ## Going on quietly -/

variable {settings : PipelineSettings} {p : Pipeline σ} {action : Action}

theorem quiet_supervisorTurn (hended : p.intake.isEnded = true ∨ p.outlet.isEnded = true)
    (h : p.supervisorTurn = some action) : p.disturbs action = false := by
  unfold supervisorTurn at h
  split at h
  · cases h
    rcases hended with hin | hout
    · simp [disturbs, hin]
    · simp [disturbs, hout]
  · split at h
    · cases h
      rfl
    · cases h

theorem quiet_outletTurn (h : p.outletTurn = some action) : p.disturbs action = false := by
  unfold outletTurn at h
  split at h
  · cases h
  · cases h
    rfl
  · split at h
    · cases h
      rfl
    · split at h
      · cases h
        rfl
      · cases h
  · rename_i hout
    exact quiet_supervisorTurn (Or.inr (by rw [hout]; rfl)) h

/-- Of what is done next only a write that is given up disturbs a run, and it could have
waited. -/
theorem quiet_intakeTurn (h : p.intakeTurn = some action) :
    p.disturbs action = false ∨ p.queue.closed = false ∧ p.queue.hasRoom = false := by
  unfold intakeTurn at h
  split at h
  · cases h
    exact Or.inl rfl
  · cases h
    exact Or.inl rfl
  · split at h
    · cases h
      exact Or.inl rfl
    · rename_i hclosed
      split at h
      · cases h
        exact Or.inl rfl
      · rename_i hroom
        exact Or.inr ⟨by simpa using hclosed, by simpa using hroom⟩
  · rename_i hin
    left
    cases hsupervisor : p.supervisorTurn with
    | none =>
      rw [hsupervisor, Option.none_or] at h
      exact quiet_outletTurn h
    | some first =>
      rw [hsupervisor, Option.some_or] at h
      cases h
      exact quiet_supervisorTurn (Or.inl (by rw [hin]; rfl)) hsupervisor

variable [ObjectStore σ]

theorem exists_quiet (h : p.turn settings = some action) :
    ∃ action, p.disturbs action = false ∧ p.Proceeds settings action := by
  have hproceeds := proceeds_turn h
  unfold turn at h
  split at h
  · refine ⟨action, ?_, hproceeds⟩
    split at h <;> cases h <;> rfl
  · rename_i hout
    rcases quiet_intakeTurn h with hquiet | ⟨hopen, hfull⟩
    · exact ⟨action, hquiet, hproceeds⟩
    · cases houtlet : p.outletTurn with
      | some other => exact ⟨other, quiet_outletTurn houtlet, proceeds_outletTurn houtlet⟩
      | none =>
        rcases ended_of_outletTurn hout houtlet with ⟨-, hclosed⟩ | ⟨hnil, -⟩
        · rw [hopen] at hclosed
          cases hclosed
        · have hpos := p.queue.capacity_pos
          simp [Queue.hasRoom, hnil, hpos] at hfull

end Pipeline

/-! ## What quiet runs preserve -/

def Source.isReadable : Source → Bool
  | unreadable _ => false
  | lines _ _ | records _ _ => true

theorem Source.isReadable_next {s s' : Source} {batch? : Option (List Record)}
    (h : s.next = .ok (batch?, s')) : s'.isReadable = true := by
  cases s with
  | unreadable path => cases h
  | lines rest limits | records rest size =>
    simp only [next, Except.ok.injEq, Prod.mk.injEq] at h
    rw [← h.2]
    rfl

/-- The source's worker reads what can be read, or has ended without a fault. -/
def Intake.isSound : Intake → Bool
  | reading source | checking _ source | writing _ _ source _ => source.isReadable
  | ended (.ok ()) => true
  | ended (.error _) => false

theorem Intake.eq_ended_of_isSound {intake : Intake} (h : intake.isSound = true)
    (hended : intake.isEnded = true) : intake = .ended (.ok ()) := by
  obtain ⟨outcome, rfl⟩ := exists_of_isEnded hended
  cases outcome with
  | ok u => rfl
  | error fault => cases h

theorem Outlet.eq_ended_of_not_failed {outlet : Outlet} (h : outlet.hasFailed = false)
    (hended : outlet.isEnded = true) : outlet = .ended (.ok ()) := by
  obtain ⟨outcome, rfl⟩ := exists_of_isEnded hended
  cases outcome with
  | ok u => rfl
  | error fault => cases h

theorem Intake.isSound_afterPull {source : Source} (h : source.isReadable = true) :
    (Pipeline.afterPull source).isSound = true := by
  unfold Pipeline.afterPull
  cases hnext : source.next with
  | error fault =>
    cases source with
    | unreadable path => cases h
    | lines | records => cases hnext
  | ok answer =>
    obtain ⟨batch?, rest⟩ := answer
    cases batch? with
    | none => rfl
    | some batch => exact Source.isReadable_next hnext

namespace Pipeline

/-- As long as the source's worker has something to do nobody stops it. -/
structure Undisturbed (p : Pipeline σ) : Prop where
  sound : p.intake.isSound = true
  running : p.intake.isEnded = false →
    p.stopped = false ∧ p.queue.closed = false ∧ p.outlet.isEnded = false

theorem undisturbed_start {source : Source} (h : source.isReadable = true) (queueCapacity : Nat)
    (c : Coordinator σ) : (start source queueCapacity c).Undisturbed :=
  ⟨h, fun _ => ⟨rfl, rfl, rfl⟩⟩

variable [ObjectStore σ] {settings : PipelineSettings} {p q : Pipeline σ} {action : Action}

omit [ObjectStore σ] in
theorem outlet_of_not_failed {α : Type} {next : Outlet} {fault : ArchiveError → RunFault}
    {result : Except ArchiveError α × Coordinator σ}
    (h : (p.afterCall next fault result).outlet.hasFailed = false) :
    (p.afterCall next fault result).outlet = next := by
  rcases p.outlet_afterCall next fault result with hout | ⟨e, hout⟩
  · exact hout
  · rw [hout] at h
    cases h

theorem undisturbed_step (h : p.Undisturbed) (hquiet : p.disturbs action = false)
    (hstep : Step settings p action q) (hopen : q.outlet.hasFailed = false) : q.Undisturbed := by
  have hsound := h.sound
  have hrunning := h.running
  cases hstep with
  | pull hin =>
    rw [hin] at hsound hrunning
    exact ⟨Intake.isSound_afterPull hsound, fun _ => hrunning rfl⟩
  | check hin =>
    rename_i rest source
    rw [hin] at hsound hrunning
    have hgoing : p.stopped = false := (hrunning rfl).1
    refine ⟨?_, fun _ => hrunning rfl⟩
    cases rest with
    | nil => exact hsound
    | cons record rest =>
      simp only [afterCheck, hgoing, Bool.false_eq_true, if_false]
      exact hsound
  | write hin hpush =>
    obtain ⟨-, -, rfl⟩ := Queue.push?_eq_some hpush
    rw [hin] at hsound hrunning
    exact ⟨hsound, fun _ => hrunning rfl⟩
  | expire => cases hquiet
  | refuse hin hclosed =>
    rw [hin] at hrunning
    have hshut := (hrunning rfl).2.1
    rw [hclosed] at hshut
    cases hshut
  | take hout htake | gather hout _ htake =>
    obtain ⟨record, rest, -, -, rfl⟩ := Queue.take?_one htake
    exact ⟨hsound, fun hin => ⟨(hrunning hin).1, (hrunning hin).2.1, rfl⟩⟩
  | hold hout => exact ⟨hsound, fun hin => ⟨(hrunning hin).1, (hrunning hin).2.1, rfl⟩⟩
  | accept hout | tick hout =>
    refine ⟨hsound, fun hin => ⟨(hrunning hin).1, (hrunning hin).2.1, ?_⟩⟩
    rw [outlet_of_not_failed hopen]
    rfl
  | finish hout hdrained =>
    refine ⟨hsound, fun hin => ?_⟩
    have hshut : p.queue.closed = false := (hrunning hin).2.1
    rw [Queue.isDrained, hshut] at hdrained
    cases hdrained
  | stop =>
    refine ⟨hsound, fun hin => ?_⟩
    obtain ⟨-, -, hout⟩ := hrunning hin
    have hin : p.intake.isEnded = false := hin
    simp [disturbs, hin, hout] at hquiet
  | close hstopped =>
    refine ⟨hsound, fun hin => ?_⟩
    have hgoing : p.stopped = false := (hrunning hin).1
    rw [hstopped] at hgoing
    cases hgoing
  | pass | abort => exact ⟨hsound, hrunning⟩

end Pipeline

theorem Coordinator.complete_atClock {sink : Sink} {old : List Put} {records : List Bytes}
    {c : Coordinator σ} (h : c.Complete sink old records) {clock : Clock}
    (hclock : clock.cancelAt = c.world.clock.cancelAt) :
    (c.atClock clock).Complete sink old records := by
  obtain ⟨hstate, deeds, groups, active, hledger, hdeeds⟩ := h
  rw [atClock_eq_amid]
  exact ⟨⟨hclock.trans hstate.uncancelled, hstate.serves, hstate.sound⟩, deeds, groups, active,
    ledger_amid hledger _, hdeeds⟩

namespace Passage

variable [ObjectStore σ] {settings : PipelineSettings} {t t' : Passage σ}

/-- The run after more actions, if they are possible one after the other and none of them
disturbs it. -/
def quietRun? (settings : PipelineSettings) :
    List Pipeline.Action → Passage σ → Option (Passage σ)
  | [], t => some t
  | action :: rest, t =>
    if t.state.disturbs action then none
    else (t.step? settings action).bind (quietRun? settings rest)

theorem quietRun?_cons {action : Pipeline.Action} {rest : List Pipeline.Action}
    (h : t.quietRun? settings (action :: rest) = some t') :
    t.state.disturbs action = false ∧
      ∃ next, t.step? settings action = some next ∧ next.quietRun? settings rest = some t' := by
  unfold quietRun? at h
  split at h
  · cases h
  · rename_i hquiet
    exact ⟨by simpa using hquiet, Option.bind_eq_some_iff.mp h⟩

theorem run?_of_quietRun? {actions : List Pipeline.Action}
    (h : t.quietRun? settings actions = some t') : t.run? settings actions = some t' := by
  induction actions generalizing t with
  | nil => exact h
  | cons action rest ih =>
    obtain ⟨-, next, hnext, hrest⟩ := quietRun?_cons h
    exact Option.bind_eq_some_iff.mpr ⟨next, hnext, ih hrest⟩

theorem quietRun?_invariant (Inv : Passage σ → Prop)
    (step : ∀ t t' action, Inv t → t.state.disturbs action = false →
      t.step? settings action = some t' → Inv t')
    {actions : List Pipeline.Action} (h : Inv t) (hrun : t.quietRun? settings actions = some t') :
    Inv t' := by
  induction actions generalizing t with
  | nil =>
    cases hrun
    exact h
  | cons action rest ih =>
    obtain ⟨hquiet, next, hnext, hrest⟩ := quietRun?_cons hrun
    exact ih (step t next action h hquiet hnext) hrest

/-- From any state a quiet run leads to the end. -/
theorem exists_quietRun? (settings : PipelineSettings) (t : Passage σ)
    (hsource : t.state.intake.Advances) :
    ∃ actions t', t.quietRun? settings actions = some t' ∧
      t'.state.intake.isEnded = true ∧ t'.state.outlet.isEnded = true := by
  induction hwork : t.state.work using Nat.strongRecOn generalizing t with
  | ind n ih =>
    cases hturn : t.state.turn settings with
    | none => exact ⟨[], t, rfl, Pipeline.ended_of_turn hturn⟩
    | some action =>
      obtain ⟨action, hquiet, hproductive, next, hnext⟩ := Pipeline.exists_quiet hturn
      let t₁ : Passage σ :=
        ⟨t.written ++ t.state.written action, t.handed ++ t.state.handed action, next⟩
      have hstep : t.step? settings action = some t₁ := by
        rw [step?, hnext]
        rfl
      have hless := Pipeline.work_lt_of_step (Pipeline.step_of_step? hnext) hsource hproductive
      obtain ⟨actions, t', hrun, hended⟩ := ih next.work (hwork ▸ hless) t₁
        (Pipeline.advances_of_step (Pipeline.step_of_step? hnext) hsource) rfl
      refine ⟨action :: actions, t', ?_, hended⟩
      rw [quietRun?, hquiet, hstep]
      exact hrun

/-! ## What a quiet run stores -/

/-- Every record that was handed over was appended, and nothing has gone wrong. -/
structure Carries (settings : PipelineSettings) (old : List Put) (stream : List Record)
    (t : Passage σ) : Prop where
  accounted : t.Accounted stream
  complete : t.state.coordinator.Complete settings.sink old
    (t.handed.flatten.filterMap fun record => (settings.sink.codec.encode record).toOption)
  going : t.state.outlet.hasFailed = false
  undisturbed : t.state.Undisturbed

variable {old : List Put} {stream : List Record}

theorem carries_step (h : t.Carries settings old stream)
    (hstream : ∀ record ∈ stream, ∃ bytes, settings.sink.codec.encode record = .ok bytes)
    {action : Pipeline.Action} (hquiet : t.state.disturbs action = false)
    (hstep : t.step? settings action = some t') : t'.Carries settings old stream := by
  have haccounted := accounted_step h.accounted hstep
  obtain ⟨hstate, -, hhanded⟩ := step_of_step? hstep
  -- What is handed over comes from the stream.
  have hfirst : t'.handed.flatten <+: stream := by
    refine List.IsPrefix.trans ?_ haccounted.intake.written_prefix
    rw [haccounted.written_eq]
    exact List.prefix_append _ _
  suffices hcomplete : t'.state.coordinator.Complete settings.sink old
      (t'.handed.flatten.filterMap fun record => (settings.sink.codec.encode record).toOption) ∧
        t'.state.outlet.hasFailed = false from
    ⟨haccounted, hcomplete.1, hcomplete.2,
      Pipeline.undisturbed_step h.undisturbed hquiet hstate hcomplete.2⟩
  rw [hhanded, List.flatten_append] at hfirst ⊢
  rw [List.filterMap_append]
  cases Pipeline.effect_of_step hstate with
  | apart clock hcoordinator hcancel hnone houtlet =>
    have hkept : clock.cancelAt = t.state.coordinator.world.clock.cancelAt := by
      apply hcancel
      rintro d rfl
      cases hquiet
    rw [hnone, hcoordinator, houtlet, List.flatten_nil, List.filterMap_nil, List.append_nil]
    exact ⟨Coordinator.complete_atClock h.complete hkept, h.going⟩
  | call call hbatch hcoordinator hbefore hafter =>
    rw [hbatch] at hfirst ⊢
    obtain ⟨hok, hcalled⟩ := Coordinator.complete_call h.complete call
      fun record hmem => hstream record (hfirst.subset (List.mem_append_right _ hmem))
    rw [hcoordinator]
    exact ⟨hcalled, hafter.mpr hok⟩

omit [ObjectStore σ] in
theorem carries_start {source : Source} (hreadable : source.isReadable = true) {world : World σ}
    (hclock : world.clock.cancelAt = none) (hserves : world.staging.Serves settings.sink.kind)
    (queueCapacity : Nat) :
    Carries settings world.puts.reverse source.stream
      { state := .start source queueCapacity (.start world) } where
  accounted := accounted_start source queueCapacity (.start world)
  complete := Coordinator.complete_start hclock hserves
  going := rfl
  undisturbed := Pipeline.undisturbed_start hreadable queueCapacity (.start world)

omit [ObjectStore σ] in
theorem result?_of_carries (h : t.Carries settings old stream)
    (hin : t.state.intake.isEnded = true) (hout : t.state.outlet.isEnded = true) :
    t.state.result? false = some (.ok t.state.coordinator.tally) := by
  have hintake := Intake.eq_ended_of_isSound h.undisturbed.sound hin
  have houtlet := Outlet.eq_ended_of_not_failed h.going hout
  rw [Pipeline.result?, hintake, houtlet]

/-- A quiet run whose workers have ended and that lost no upload has stored the stream of
its source, record by record. -/
theorem stored_of_quietRun? {source : Source} {world : World σ} {queueCapacity : Nat}
    {actions : List Pipeline.Action} (hreadable : source.isReadable = true)
    (hstream : ∀ record ∈ source.stream, ∃ bytes, settings.sink.codec.encode record = .ok bytes)
    (hclock : world.clock.cancelAt = none) (hserves : world.staging.Serves settings.sink.kind)
    (hrun : quietRun? settings actions { state := .start source queueCapacity (.start world) } =
      some t)
    (hin : t.state.intake.isEnded = true) (hout : t.state.outlet.isEnded = true)
    (hlost : t.state.coordinator.tally.buffersLost = 0) :
    t.state.result? false = some (.ok t.state.coordinator.tally) ∧
      (world.stored t.state.coordinator.world).flatten =
        (source.stream.filterMap fun record =>
          (settings.sink.codec.encode record).toOption).flatten ∧
      t.state.coordinator.tally.eventsDropped = 0 ∧
      t.state.coordinator.tally.encodeFailures = 0 := by
  have h : t.Carries settings world.puts.reverse source.stream :=
    quietRun?_invariant (Carries settings world.puts.reverse source.stream)
      (fun _ _ _ h hquiet hstep => carries_step h hstream hquiet hstep)
      (carries_start hreadable hclock hserves queueCapacity) hrun
  have hresult := result?_of_carries h hin hout
  obtain ⟨-, hdone, -⟩ := Pipeline.ended_of_result? hresult
  have hhanded := handed_of_result (run?_of_quietRun? hrun) hresult
  obtain ⟨hstored, hdropped, hfailures⟩ :=
    Coordinator.stored_of_complete h.complete (h.accounted.drained hdone).2 hlost
  refine ⟨hresult, ?_, hdropped, hfailures⟩
  rw [hstored, hhanded]
  -- What a codec writes is a line already.
  have hended : ∀ bytes ∈ source.stream.filterMap fun record =>
      (settings.sink.codec.encode record).toOption, Bytes.terminated bytes = bytes := by
    intro bytes hmem
    obtain ⟨record, -, hrecord⟩ := List.mem_filterMap.mp hmem
    cases hcode : settings.sink.codec.encode record with
    | error fault =>
      rw [hcode] at hrecord
      cases hrecord
    | ok found =>
      rw [hcode] at hrecord
      cases hrecord
      rw [Bytes.terminated, if_pos (Codec.endsLine_encode hcode)]
  rw [List.map_congr_left hended, List.map_id']

end Passage

end RecordArchive
