import RecordArchive.CommandLine
import RecordArchive.Proofs.Pipeline.Calls
import RecordArchive.Proofs.Pipeline.Delivery
import RecordArchive.Proofs.Pipeline.Progress

/-!
# What the exit status tells

The exit status is chosen by the number of buffers that were lost.  No buffer without
events is lost, and a run that ends well has gone through the last flush, so the status
tells of the events: `status_faithful`.
-/

namespace RecordArchive

/-- The totals account for every event that was accepted, and the status tells whether all
of them were uploaded. -/
structure Tally.Told (tally : Tally) (status : Nat) : Prop where
  balanced : tally.eventsAccepted = tally.eventsFlushed + tally.eventsLost
  zero_iff : status = 0 ↔ tally.eventsAccepted = tally.eventsFlushed
  two_iff : status = 2 ↔ 0 < tally.eventsLost

namespace CommandLine

theorem told_of_balanced {tally : Tally}
    (hbalanced : tally.eventsAccepted = tally.eventsFlushed + tally.eventsLost)
    (hlost : tally.buffersLost = 0 ↔ tally.eventsLost = 0) (tree : FileTree) :
    tally.Told (success tree tally).status := by
  have hstatus : (success tree tally).status = if 0 < tally.buffersLost then 2 else 0 := rfl
  by_cases h : 0 < tally.buffersLost
  · rw [if_pos h] at hstatus
    exact ⟨hbalanced, by omega, by omega⟩
  · rw [if_neg h] at hstatus
    exact ⟨hbalanced, by omega, by omega⟩

variable {σ : Type} [ObjectStore σ]

theorem told_of_result {settings : PipelineSettings} {source : Source} {queueCapacity : Nat}
    {world : World σ} {actions : List Pipeline.Action} {t : Passage σ} {stop : Bool}
    {tally : Tally}
    (hrun : Passage.run? settings actions
      { state := .start source queueCapacity (.start world) } = some t)
    (hend : t.state.result? stop = some (.ok tally)) (tree : FileTree) :
    tally.Told (success tree tally).status := by
  obtain ⟨-, hout, htally⟩ := Pipeline.ended_of_result? hend
  obtain ⟨deeds, groups, active, hledger, hnone⟩ :
      t.state.Booked settings.sink world.puts.reverse :=
    Passage.run_invariant (fun t => t.state.Booked settings.sink world.puts.reverse)
      (fun _ _ _ h hstep => Pipeline.booked_step h (Passage.step_of_step? hstep).1)
      (Pipeline.booked_start settings.sink source queueCapacity world) hrun
  have hgone : t.state.coordinator.activeCount = 0 := by
    rw [Coordinator.activeCount, ((Passage.accounted_run? hrun).drained hout).2]
  have hall := Coordinator.eventsAccepted_eq hledger
  rw [hnone (by rw [hout]; rfl), hgone, htally] at hall
  have hlost := lost_foldl hledger.consistent (t := {}) Iff.rfl
  rw [← hledger.tally_eq, htally] at hlost
  exact told_of_balanced hall hlost tree

end CommandLine

/-- A run of an archive that ends well is a run of its pipeline that does. -/
theorem Archive.exists_run?_of_run {settings : ArchiveSettings} {s : Surroundings}
    {stop abort : Bool} {tally : Tally} {tree : FileTree}
    (h : run settings s stop abort = (.ok tally, tree)) :
    ∃ sink source actions t, Passage.run? (pipeline settings sink) actions
        { state := .start source settings.runtime.queueCapacity
            (.start (world settings s abort)) } = some t ∧
      t.state.result? stop = some (.ok tally) := by
  unfold run at h
  cases hsink : Sink.ofSettings settings.sink with
  | error e => simp [hsink] at h
  | ok sink =>
    simp only [hsink] at h
    cases hstart : Source.start settings.source s.tree.contents? with
    | error fault => simp [hstart] at h
    | ok source =>
      simp only [hstart, Prod.mk.injEq] at h
      obtain ⟨actions, t, hrun, hstate⟩ := Passage.exists_run?_run (pipeline settings sink) source
        settings.runtime.queueCapacity stop (.start (world settings s abort))
      obtain ⟨result, hresult⟩ := Pipeline.exists_result?_run (pipeline settings sink)
        (Source.advances_of_start hstart) settings.runtime.queueCapacity stop
        (.start (world settings s abort))
      rw [hresult] at h
      refine ⟨sink, source, actions, t, hrun, ?_⟩
      rw [hstate, hresult]
      exact congrArg some h.1

namespace CommandLine

variable {σ : Type} [ObjectStore σ]

/-- Of every run that ends well, whatever its source, its schedule and its store are, the
totals account for all events, and the exit status is zero if all of them were uploaded and
two if one was lost.  The program exits with one of these, or with one when no run ended
well. -/
theorem status_faithful :
    (∀ (settings : PipelineSettings) (source : Source) (queueCapacity : Nat) (world : World σ)
      (actions : List Pipeline.Action) (t : Passage σ) (stop : Bool) (tally : Tally),
      Passage.run? settings actions { state := .start source queueCapacity (.start world) } =
        some t → t.state.result? stop = some (.ok tally) →
          ∀ tree, tally.Told (success tree tally).status) ∧
      (∀ (settings : ArchiveSettings) (s : Surroundings) (stop abort : Bool) (tally : Tally)
        (tree : FileTree), Archive.run settings s stop abort = (.ok tally, tree) →
          tally.Told (success tree tally).status) ∧
      ∀ (call : Call) (s : Surroundings), (run call s).status = 1 ∨
        ∃ settings tally tree, Archive.run settings s false false = (.ok tally, tree) ∧
          tally.Told (run call s).status := by
  have harchive : ∀ (settings : ArchiveSettings) (s : Surroundings) (stop abort : Bool)
      (tally : Tally) (tree : FileTree), Archive.run settings s stop abort = (.ok tally, tree) →
        tally.Told (success tree tally).status := by
    intro settings s stop abort tally tree h
    obtain ⟨sink, source, actions, t, hrun, hend⟩ := Archive.exists_run?_of_run h
    exact told_of_result hrun hend tree
  refine ⟨fun settings source queueCapacity world actions t stop tally hrun hend tree =>
    told_of_result hrun hend tree, harchive, ?_⟩
  intro call s
  unfold run
  split
  · exact Or.inl rfl
  · split
    · exact Or.inl rfl
    · split
      · exact Or.inl rfl
      · rename_i settings _ _ tally tree h
        exact Or.inr ⟨settings, tally, tree, h, harchive settings s false false tally tree h⟩

/-- The store refuses the first of two objects, and the status says that one is lost. -/
theorem status_faithful_lossy :
    let world : World MemoryStore := { Sample.world with store := { failures := 1 } }
    ∃ actions t tally, Passage.run? Sample.pipeline actions
        { state := .start Sample.listed 4 (.start world) } = some t ∧
      t.state.result? false = some (.ok tally) ∧ tally.eventsAccepted = 2 ∧
      tally.eventsFlushed = 1 ∧ (success {} tally).status = 2 := by
  intro world
  obtain ⟨t, tally, hrun, hend, haccepted, hflushed⟩ : ∃ t tally,
      Passage.run? Sample.pipeline Sample.interleaved
          { state := .start Sample.listed 4 (.start world) } = some t ∧
        t.state.result? false = some (.ok tally) ∧ tally.eventsAccepted = 2 ∧
        tally.eventsFlushed = 1 := ⟨_, _, rfl, rfl, rfl, rfl⟩
  have htold := status_faithful.1 Sample.pipeline Sample.listed 4 world Sample.interleaved t
    false tally hrun hend {}
  have hbalanced := htold.balanced
  exact ⟨Sample.interleaved, t, tally, hrun, hend, haccepted, hflushed,
    htold.two_iff.mpr (by omega)⟩

end CommandLine

end RecordArchive
