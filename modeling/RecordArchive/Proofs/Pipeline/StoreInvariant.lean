import RecordArchive.Proofs.Pipeline.Calls
import RecordArchive.Proofs.Store.Objects

/-!
# What becomes of the store

A pipeline touches its store by the puts of its sink alone, which all go to the sink's bucket
under keys of its namer.  What every such put preserves, whatever its body, a whole run preserves,
in whatever order things happen: `store_run?`.
-/

namespace RecordArchive

variable {σ : Type} [ObjectStore σ]

/-- Every put of a sink preserves a property of its store. -/
def Sink.Preserves (sink : Sink) (Inv : σ → Prop) : Prop :=
  ∀ store now id body, Inv store →
    Inv (ObjectStore.put store ⟨sink.bucket, sink.namer.key now id⟩ body).state

variable {sink : Sink} {Inv : σ → Prop}

/-- The attempts of an upload are puts under one name. -/
theorem World.store_upload {name : ObjectName}
    (hput : ∀ store body, Inv store → Inv (ObjectStore.put store name body).state) (w : World σ)
    (retrier : Retrier) (body : Body) (h : Inv w.store) :
    Inv (w.upload retrier name body).2.store := by
  have hstep (u : Uploading σ) (hu : Inv u.1) : Inv (offer name body u).state.1 := hput u.1 body hu
  exact retrier.loop_invariant w.chance.fractions (fun u : Uploading σ => Inv u.1) hstep
    retrier.attempts ⟨w.clock, w.fractionsDrawn, 0, (w.store, w.puts)⟩ h

theorem World.store_flush {name : ObjectName}
    (hput : ∀ store body, Inv store → Inv (ObjectStore.put store name body).state) (w : World σ)
    (retrier : Retrier) (b : Buffer) (h : Inv w.store) : Inv (w.flush retrier name b).2.store := by
  unfold flush
  cases b.finish w.staging with
  | mk finished staging =>
    cases finished with
    | error e => exact h
    | ok u => exact store_upload hput { w with staging := staging } retrier _ h

namespace Coordinator

theorem store_retire (hkeeps : sink.Preserves Inv) (b : Buffer) {c : Coordinator σ}
    (h : Inv c.world.store) : Inv (retire sink b c).2.world.store := by
  unfold retire
  by_cases hnone : b.count = 0
  · rw [if_pos hnone]
    exact h
  · rw [if_neg hnone]
    have hflush := World.store_flush (hkeeps · c.world.instant c.world.drawId.1 ·)
      c.world.drawId.2 sink.retrier b h
    simp only
    cases hflushed : c.world.drawId.2.flush sink.retrier
        ⟨sink.bucket, sink.namer.key c.world.instant c.world.drawId.1⟩ b with
    | mk outcome next =>
      rw [hflushed] at hflush
      cases outcome <;> exact hflush

theorem store_perform (hkeeps : sink.Preserves Inv) {c : Coordinator σ} (h : Inv c.world.store)
    (move : Move) : Inv (c.perform sink move).state.world.store := by
  cases move with
  | refuse dropped => exact h
  | cut due =>
    rcases perform_cut_cases sink due c with ⟨-, hperform⟩ |
      ⟨b, outcome, next, -, -, hretire, hperform⟩
    · rw [hperform]
      exact h
    · have hnext : Inv (retire sink b { c with current := none }).2.world.store :=
        store_retire hkeeps b h
      rw [hretire] at hnext
      rw [hperform]
      exact hnext
  | add record =>
    show Inv (c.add sink record).2.world.store
    rw [add_world sink record c]
    exact h

theorem store_call (hkeeps : sink.Preserves Inv) {c : Coordinator σ} (h : Inv c.world.store)
    (call : Call) : Inv (c.call sink call).2.world.store := by
  rw [call_eq]
  exact @performAll_invariant _ _ sink (fun _ next => Inv next.world.store)
    (fun _ _ move hnext => store_perform hkeeps hnext move) (call.moves sink) [] c h

end Coordinator

theorem Pipeline.store_step {settings : PipelineSettings} {p q : Pipeline σ} {action : Action}
    (hkeeps : settings.sink.Preserves Inv) (h : Inv p.coordinator.world.store)
    (hstep : Step settings p action q) : Inv q.coordinator.world.store := by
  cases effect_of_step hstep with
  | apart clock hcoordinator hcancel hhanded houtlet =>
    rw [hcoordinator]
    exact h
  | call call hbatch hcoordinator hbefore hafter =>
    rw [hcoordinator]
    exact Coordinator.store_call hkeeps h call

/-- What every put of the sink preserves, runs preserve. -/
theorem Passage.store_run? {settings : PipelineSettings} {actions : List Pipeline.Action}
    {t t' : Passage σ} (hkeeps : settings.sink.Preserves Inv)
    (h : Inv t.state.coordinator.world.store) (hrun : t.run? settings actions = some t') :
    Inv t'.state.coordinator.world.store := by
  refine run_invariant (fun t => Inv t.state.coordinator.world.store)
    (fun t t' action ht hstep => ?_) h hrun
  obtain ⟨hstep, -, -⟩ := step_of_step? hstep
  exact Pipeline.store_step hkeeps ht hstep

end RecordArchive
