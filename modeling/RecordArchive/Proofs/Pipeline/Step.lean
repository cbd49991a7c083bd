import RecordArchive.Pipeline

/-!
# Steps of a pipeline

`Step` says of every action when it is possible and what it does; `step_of_step?` is
the inversion of `step?` that invariants are proved from.  A `Passage` is a run
together with the records that were written into the queue on the way and the
batches that were handed to the coordinator.
-/

namespace RecordArchive

variable {σ : Type}

namespace Pipeline

/-- A call that does not fail leads on, and one that fails ends the worker. -/
theorem outlet_afterCall {α : Type} (p : Pipeline σ) (next : Outlet)
    (fault : ArchiveError → RunFault) (result : Except ArchiveError α × Coordinator σ) :
    (p.afterCall next fault result).outlet = next ∨
      ∃ e, (p.afterCall next fault result).outlet = .ended (.error (fault e)) := by
  unfold afterCall
  cases result.1 with
  | ok a => exact Or.inl rfl
  | error e => exact Or.inr ⟨e, rfl⟩

/-- A run ends well when the sink's worker has not failed, and neither has the source's
unless it was told to stop. -/
theorem ended_of_result? {p : Pipeline σ} {stop : Bool} {tally : Tally}
    (h : p.result? stop = some (.ok tally)) :
    (∃ outcome, p.intake = .ended outcome ∧ (stop = false → outcome = .ok ())) ∧
      p.outlet = .ended (.ok ()) ∧ p.coordinator.tally = tally := by
  unfold result? at h
  split at h
  · cases h
  · rename_i hin hout
    cases stop with
    | false => cases h
    | true => exact ⟨⟨_, hin, fun hstop => nomatch hstop⟩, hout, by simpa using h⟩
  · rename_i hin hout
    exact ⟨⟨_, hin, fun _ => rfl⟩, hout, by simpa using h⟩
  · cases h

/-- The record that an action writes into the queue. -/
def written (p : Pipeline σ) : Action → List Record
  | .write =>
    match p.intake with
    | .writing record _ _ _ => [record]
    | _ => []
  | _ => []

/-- The batch that an action hands to the coordinator. -/
def handed (p : Pipeline σ) : Action → List (List Record)
  | .accept =>
    match p.outlet with
    | .holding batch => [batch]
    | _ => []
  | _ => []

variable [ObjectStore σ]

/-- What an action does where it is possible. -/
inductive Step (settings : PipelineSettings) (p : Pipeline σ) : Action → Pipeline σ → Prop
  | pull {source : Source} (hin : p.intake = .reading source) :
    Step settings p .pull { p with intake := afterPull source }
  | check {rest : List Record} {source : Source} (hin : p.intake = .checking rest source) :
    Step settings p .check { p with intake := afterCheck settings p rest source }
  | write {record : Record} {rest : List Record} {source : Source} {deadline : Duration}
    {queue : Queue Record} (hin : p.intake = .writing record rest source deadline)
    (hpush : p.queue.push? record = some queue) :
    Step settings p .write { p with queue := queue, intake := .checking rest source }
  | expire {record : Record} {rest : List Record} {source : Source} {deadline : Duration}
    (hin : p.intake = .writing record rest source deadline) (hdue : deadline ≤ p.now) :
    Step settings p .expire { p with intake := undelivered settings .timedOut }
  | refuse {record : Record} {rest : List Record} {source : Source} {deadline : Duration}
    (hin : p.intake = .writing record rest source deadline) (hclosed : p.queue.closed = true) :
    Step settings p .refuse { p with intake := undelivered settings .closed }
  | take {first : List Record} {queue : Queue Record} (hout : p.outlet = .waiting)
    (htake : p.queue.take? 1 = some (first, queue)) :
    Step settings p .take { p with queue := queue, outlet := .gathering first }
  | gather {batch more : List Record} {queue : Queue Record} (hout : p.outlet = .gathering batch)
    (hroom : batch.length < settings.batchSize) (htake : p.queue.take? 1 = some (more, queue)) :
    Step settings p .gather { p with queue := queue, outlet := .gathering (batch ++ more) }
  | hold {batch : List Record} (hout : p.outlet = .gathering batch)
    (hfull : settings.batchSize ≤ batch.length ∨ p.queue.items.isEmpty = true) :
    Step settings p .hold { p with outlet := .holding batch }
  | accept {batch : List Record} (hout : p.outlet = .holding batch) :
    Step settings p .accept
      (p.afterCall .waiting .notAccepted (p.coordinator.accept settings.sink batch))
  | tick (hout : p.outlet = .waiting) :
    Step settings p .tick
      (p.afterCall .waiting .notExpired (p.coordinator.flushExpired settings.sink))
  | finish (hout : p.outlet = .waiting) (hdrained : p.queue.isDrained = true) :
    Step settings p .finish
      (p.afterCall (.ended (.ok ())) .notFlushed (p.coordinator.shutdown settings.sink))
  | stop : Step settings p .stop { p with stopped := true }
  | close (hstopped : p.stopped = true) : Step settings p .close { p with queue := p.queue.close }
  | pass (d : Duration) : Step settings p (.pass d) (p.onClock (·.advance d))
  | abort (d : Duration) : Step settings p (.abort d) (p.onClock (·.cancelAfter d))

theorem step_of_step? {settings : PipelineSettings} {p q : Pipeline σ} {action : Action}
    (h : p.step? settings action = some q) : Step settings p action q := by
  cases action with
  | pull =>
    simp only [step?] at h
    split at h
    · cases h
      exact .pull ‹_›
    · cases h
  | check =>
    simp only [step?] at h
    split at h
    · cases h
      exact .check ‹_›
    · cases h
  | write =>
    simp only [step?] at h
    split at h
    · obtain ⟨queue, hpush, hq⟩ := Option.bind_eq_some_iff.mp h
      cases hq
      exact .write ‹_› hpush
    · cases h
  | expire =>
    simp only [step?] at h
    split at h
    · split at h
      · cases h
        exact .expire ‹_› ‹_›
      · cases h
    · cases h
  | refuse =>
    simp only [step?] at h
    split at h
    · split at h
      · cases h
        exact .refuse ‹_› ‹_›
      · cases h
    · cases h
  | take =>
    simp only [step?] at h
    split at h
    · obtain ⟨⟨first, queue⟩, htake, hq⟩ := Option.bind_eq_some_iff.mp h
      cases hq
      exact .take ‹_› htake
    · cases h
  | gather =>
    simp only [step?] at h
    split at h
    · split at h
      · obtain ⟨⟨more, queue⟩, htake, hq⟩ := Option.bind_eq_some_iff.mp h
        cases hq
        exact .gather ‹_› ‹_› htake
      · cases h
    · cases h
  | hold =>
    simp only [step?] at h
    split at h
    · split at h
      · cases h
        exact .hold ‹_› ‹_›
      · cases h
    · cases h
  | accept =>
    simp only [step?] at h
    split at h
    · cases h
      exact .accept ‹_›
    · cases h
  | tick =>
    simp only [step?] at h
    split at h
    · cases h
      exact .tick ‹_›
    · cases h
  | finish =>
    simp only [step?] at h
    split at h
    · split at h
      · cases h
        exact .finish ‹_› ‹_›
      · cases h
    · cases h
  | stop =>
    cases h
    exact .stop
  | close =>
    simp only [step?] at h
    split at h
    · cases h
      exact .close ‹_›
    · cases h
  | pass d =>
    cases h
    exact .pass d
  | abort d =>
    cases h
    exact .abort d

end Pipeline

/-- A run so far: the records that were written into the queue, the batches that
were handed to the coordinator, and the pipeline as it is now. -/
structure Passage (σ : Type) where
  written : List Record := []
  handed : List (List Record) := []
  state : Pipeline σ

namespace Passage

variable [ObjectStore σ]

def step? (settings : PipelineSettings) (t : Passage σ) (action : Pipeline.Action) :
    Option (Passage σ) := do
  let next ← t.state.step? settings action
  return ⟨t.written ++ t.state.written action, t.handed ++ t.state.handed action, next⟩

/-- The run after more actions, if they are possible one after the other. -/
def run? (settings : PipelineSettings) : List Pipeline.Action → Passage σ → Option (Passage σ)
  | [], t => some t
  | action :: rest, t => (t.step? settings action).bind (run? settings rest)

/-- The traffic of an action that is possible. -/
theorem step_of_step? {settings : PipelineSettings} {t t' : Passage σ} {action : Pipeline.Action}
    (h : t.step? settings action = some t') :
    Pipeline.Step settings t.state action t'.state ∧
      t'.written = t.written ++ t.state.written action ∧
      t'.handed = t.handed ++ t.state.handed action := by
  obtain ⟨next, hnext, ht⟩ := Option.bind_eq_some_iff.mp h
  cases ht
  exact ⟨Pipeline.step_of_step? hnext, rfl, rfl⟩

/-- What every action preserves, runs preserve. -/
theorem run_invariant {settings : PipelineSettings} (Inv : Passage σ → Prop)
    (step : ∀ t t' action, Inv t → t.step? settings action = some t' → Inv t')
    {actions : List Pipeline.Action} {t t' : Passage σ} (h : Inv t)
    (hrun : t.run? settings actions = some t') : Inv t' := by
  induction actions generalizing t with
  | nil =>
    cases hrun
    exact h
  | cons action rest ih =>
    obtain ⟨next, hnext, hrest⟩ := Option.bind_eq_some_iff.mp hrun
    exact ih (step t next action h hnext) hrest

/-! ## The schedule that is run -/

theorem exists_run?_runFrom (settings : PipelineSettings) (fuel : Nat) (t : Passage σ) :
    ∃ actions t', t.run? settings actions = some t' ∧
      t'.state = t.state.runFrom settings fuel := by
  induction fuel generalizing t with
  | zero => exact ⟨[], t, rfl, rfl⟩
  | succ fuel ih =>
    unfold Pipeline.runFrom
    cases t.state.turn settings with
    | none => exact ⟨[], t, rfl, rfl⟩
    | some action =>
      rw [Option.bind_some]
      cases hstep : t.state.step? settings action with
      | none => exact ⟨[], t, rfl, rfl⟩
      | some next =>
        obtain ⟨actions, t', hrun, hstate⟩ :=
          ih ⟨t.written ++ t.state.written action, t.handed ++ t.state.handed action, next⟩
        refine ⟨action :: actions, t', ?_, hstate⟩
        rw [run?, step?, hstep]
        exact hrun

/-- The run that is made is one of the runs that are possible, with or without a stop
before it begins. -/
theorem exists_run?_run (settings : PipelineSettings) (source : Source) (queueCapacity : Nat)
    (stop : Bool) (c : Coordinator σ) :
    ∃ actions t, run? settings actions { state := .start source queueCapacity c } = some t ∧
      t.state = Pipeline.run settings source queueCapacity stop c := by
  unfold Pipeline.run
  cases stop with
  | false => exact exists_run?_runFrom settings _ { state := .start source queueCapacity c }
  | true =>
    let stopped : Pipeline σ := { Pipeline.start source queueCapacity c with
      stopped := true
      queue := (Pipeline.start source queueCapacity c).queue.close }
    obtain ⟨actions, t, hrun, hstate⟩ :=
      exists_run?_runFrom settings (8 * source.left + 16) { state := stopped }
    exact ⟨.stop :: .close :: actions, t, hrun, hstate⟩

end Passage

end RecordArchive
