import RecordArchive.Proofs.Buffer.Ample
import RecordArchive.Proofs.Buffer.Upload
import RecordArchive.Proofs.Coordinator.Course
import RecordArchive.Store.Memory

/-!
# Calls in which nothing fails

A run that has not been cancelled, a store that takes every body at once, and
staging files to which every write succeeds.  The main statement is
`retire_of_calm`: a buffer is retired by one put, which stores its contents, and
nothing else changes that a coordinator looks at.
-/

namespace RecordArchive

/-- A store that is ready takes at once every body that can be read, and is ready
after that. -/
structure Prompt {σ : Type} [ObjectStore σ] (ready : σ → Prop) : Prop where
  accepts : ∀ s name body content, ready s → body.content? = some content →
    (ObjectStore.put s name body).outcome = .ok () ∧
      (ObjectStore.put s name body).took = .zero ∧ ready (ObjectStore.put s name body).state

theorem MemoryStore.prompt : Prompt fun s : MemoryStore => s.failures = 0 where
  accepts s name body content hready hbody := by
    have hput : (s.put name body).1 = .ok () ∧ (s.put name body).2.failures = 0 := by
      have hnot : ¬ 0 < s.failures := by omega
      unfold MemoryStore.put
      simp only [hnot, if_false]
      cases body with
      | bytes content' => exact ⟨rfl, hready⟩
      | file path content? =>
        obtain rfl : content? = some content := hbody
        exact ⟨rfl, hready⟩
    exact ⟨hput.1, rfl, hput.2⟩

/-- A put that stored these bytes. -/
def Put.Stores (put : Put) (contents : Bytes) : Prop :=
  put.body.content? = some contents ∧ put.outcome = .ok ()

namespace World

variable {σ : Type}

/-- Nothing stands in the way of an upload of buffers of a kind. -/
structure Calm (kind : BufferKind) (ready : σ → Prop) (w : World σ) : Prop where
  uncancelled : w.clock.isCancelled = false
  ready : ready w.store
  serves : w.staging.Serves kind

/-- Contents of the objects that were stored between two moments, in order. -/
def stored (before after : World σ) : List Bytes :=
  ((before.putsUntil after).filter Put.succeeded).filterMap (·.body.content?)

variable [ObjectStore σ] {kind : BufferKind} {ready : σ → Prop} {w : World σ}

theorem upload_of_calm (hprompt : Prompt ready) (hw : w.Calm kind ready) (retrier : Retrier)
    (name : ObjectName) {body : Body} {contents : Bytes} (hbody : body.content? = some contents) :
    ∃ put w', w.upload retrier name body = (.ok true, w') ∧ w'.puts = put :: w.puts ∧
      put.Stores contents ∧ w'.clock = w.clock ∧ w'.Calm kind ready := by
  obtain ⟨hout, htook, hready⟩ := hprompt.accepts w.store name body contents hw.ready hbody
  obtain ⟨left, hleft⟩ : ∃ left, retrier.attempts = left + 1 :=
    ⟨retrier.attempts - 1, by have := retrier.attempts_pos; omega⟩
  have hrun : retrier.run w.chance.fractions (offer name body) w.clock w.fractionsDrawn
      (w.store, w.puts) = (.succeeded, ⟨w.clock, w.fractionsDrawn, 1,
        ((ObjectStore.put w.store name body).state, ⟨name, body, .ok ()⟩ :: w.puts)⟩) := by
    simp only [Retrier.run, hleft, Retrier.loop, hw.uncancelled, Bool.false_eq_true, if_false,
      Retrier.Progress.attemptOnce, offer, hout, htook]
    rfl
  unfold upload
  rw [hrun]
  exact ⟨_, _, rfl, rfl, ⟨hbody, rfl⟩, rfl, hw.uncancelled, hready, hw.serves⟩

theorem flush_of_calm (hprompt : Prompt ready) (hw : w.Calm kind ready) (retrier : Retrier)
    (name : ObjectName) {b : Buffer} {records : List Bytes} (hb : b.Holds w.staging records)
    (hsound : b.Sound kind) :
    ∃ put w', w.flush retrier name b = (.ok true, w') ∧ w'.puts = put :: w.puts ∧
      put.Stores records.flatten ∧ w'.clock = w.clock ∧ w'.Calm kind ready := by
  obtain ⟨staging, hfinish, hserves⟩ := Buffer.finish_of_serves hsound hw.serves
  have hbody := content?_bodyOf (w := { w with staging := staging }) hb hfinish
  obtain ⟨put, w', hupload, hputs, hstores, hclock, hcalm⟩ :=
    upload_of_calm (w := { w with staging := staging }) hprompt
      ⟨hw.uncancelled, hw.ready, hserves⟩ retrier name hbody
  unfold flush
  simp only [hfinish, hupload]
  exact ⟨put, _, rfl, hputs, hstores, hclock, hcalm.uncancelled, hcalm.ready,
    Buffer.serves_discard hcalm.serves⟩

end World

/-- Nothing stands in the way of a call that uploads buffers of a kind. -/
structure Circumstances.Calm {σ : Type} (kind : BufferKind) (ready : σ → Prop)
    (around : Circumstances σ) : Prop where
  uncancelled : around.clock.isCancelled = false
  ready : ready around.store
  usable : kind = .staged → around.usable = true
  room : kind = .staged → around.room = none

namespace Coordinator

variable {σ : Type} {ready : σ → Prop} {sink : Sink}

theorem calm_amid {kind : BufferKind} {around : Circumstances σ} (h : around.Calm kind ready)
    (c : Coordinator σ) : (c.amid around).world.Calm kind ready :=
  ⟨h.uncancelled, h.ready, fun hkind => ⟨h.usable hkind, h.room hkind⟩⟩

variable [ObjectStore σ] {c : Coordinator σ}

theorem retire_of_calm (hprompt : Prompt ready) (hc : c.world.Calm sink.kind ready) {b : Buffer}
    {records : List Bytes} (hb : b.Holds c.world.staging records) (hne : records ≠ [])
    (hsound : b.Sound sink.kind) :
    ∃ put world, retire sink b c = (.ok (), { c with world := world, tally := c.tally.flushed b }) ∧
      world.puts = put :: c.world.puts ∧ put.Stores records.flatten ∧
      world.clock = c.world.clock ∧ world.Calm sink.kind ready := by
  have hpos : b.count ≠ 0 := by
    rw [hb.count_eq]
    exact fun h => hne (List.eq_nil_of_length_eq_zero h)
  have hdrawn : c.world.drawId.2.Calm sink.kind ready := ⟨hc.uncancelled, hc.ready, hc.serves⟩
  obtain ⟨put, world, hflush, hputs, hstores, hclock, hcalm⟩ :=
    World.flush_of_calm hprompt hdrawn sink.retrier
      ⟨sink.bucket, sink.namer.key c.world.instant c.world.drawId.1⟩ hb hsound
  unfold retire
  simp only [hpos, if_false, hflush, if_true]
  exact ⟨put, world, rfl, hputs, hstores, hclock, hcalm⟩

end Coordinator

end RecordArchive
