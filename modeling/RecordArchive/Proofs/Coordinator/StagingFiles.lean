import RecordArchive.Proofs.Buffer.Footprint
import RecordArchive.Proofs.Coordinator.Course

/-!
# Staging files do not leak

The files that a coordinator creates go with their buffers, however these end: stored,
lost, cut short, or given up after a failed write.  The main statement is
`staging_files_released`.  It asks nothing of the calls, which may find any clock, any
store and any disk before each of their moves, and may be cancelled; only that a file which
is deleted is gone.
-/

namespace RecordArchive

variable {σ : Type} [ObjectStore σ]

/-- Of the staging files, an upload touches those that finishing and discarding its buffer
touches. -/
theorem World.staging_flush (w : World σ) (retrier : Retrier) (name : ObjectName) (b : Buffer) :
    (w.flush retrier name b).2.staging = b.discard (b.finish w.staging).2 := by
  unfold flush
  cases b.finish w.staging with
  | mk finished staging => cases finished <;> rfl

namespace Coordinator

section

omit [ObjectStore σ]

/-- The staging file of the active buffer. -/
def file? (c : Coordinator σ) : Option Nat := c.current.bind (·.file?)

theorem file?_of_none {c : Coordinator σ} (h : c.current = none) : c.file? = none := by
  rw [file?, h]
  rfl

/-- Of the files that were created since a moment the active buffer's is left, which is a
buffer of the sink. -/
structure Tidy (sink : Sink) (before : Staging) (c : Coordinator σ) : Prop where
  staging : before.Tidy c.file? c.world.staging
  kind_eq : ∀ b, c.current = some b → b.kind = sink.kind

variable {sink : Sink} {before : Staging} {c : Coordinator σ}

theorem tidy_start (sink : Sink) (world : World σ) : (start world).Tidy sink world.staging :=
  ⟨Staging.tidy_start world.staging, fun _ h => (nomatch h)⟩

theorem tidy_amid (h : c.Tidy sink before) (around : Circumstances σ) :
    (c.amid around).Tidy sink before :=
  ⟨Staging.tidy_amid h.staging around.usable around.room, h.kind_eq⟩

/-- A coordinator without a buffer has left no file behind. -/
theorem tidy_of_none (hcur : c.current = none) (h : before.Tidy none c.world.staging) :
    c.Tidy sink before := by
  refine ⟨?_, fun b hb => ?_⟩
  · rw [file?_of_none hcur]
    exact h
  · rw [hcur] at hb
    cases hb

end

variable {sink : Sink} {before : Staging} {c : Coordinator σ}

theorem tidy_retire {b : Buffer} (hcur : c.current = none)
    (h : before.Tidy b.file? c.world.staging) : (retire sink b c).2.Tidy sink before := by
  refine tidy_of_none ((current_retire sink b c).trans hcur) ?_
  unfold retire
  by_cases hempty : b.count = 0
  · rw [if_pos hempty]
    exact Staging.tidy_discard h
  · rw [if_neg hempty]
    have hflush := c.world.drawId.2.staging_flush sink.retrier
      ⟨sink.bucket, sink.namer.key c.world.instant c.world.drawId.1⟩ b
    simp only
    generalize c.world.drawId.2.flush sink.retrier
      ⟨sink.bucket, sink.namer.key c.world.instant c.world.drawId.1⟩ b = answer at hflush
    obtain ⟨outcome, world⟩ := answer
    -- The file goes whether the upload has stored the buffer, lost it or was cut short.
    have hgone : before.Tidy none world.staging := by
      rw [hflush]
      exact Staging.tidy_discard (Staging.tidy_touches h (b.touches_finish _))
    cases outcome <;> exact hgone

theorem tidy_cut (h : c.Tidy sink before) (due : Snapshot → Bool) :
    (c.perform sink (.cut due)).state.Tidy sink before := by
  rcases perform_cut_cases sink due c with ⟨-, hstill⟩ | ⟨b, _, next, hcur, -, hretire, hcourse⟩
  · rw [hstill]
    exact h
  · have hfile : c.file? = b.file? := by
      rw [file?, hcur]
      rfl
    have hretired : (retire sink b { c with current := none }).2.Tidy sink before :=
      tidy_retire rfl (hfile ▸ h.staging)
    rw [hretire] at hretired
    rw [hcourse]
    exact hretired

omit [ObjectStore σ] in
/-- The buffer to append to comes with its file, whether it is the active one or is new. -/
theorem tidy_takeBuffer (h : c.Tidy sink before) {answer : Except ArchiveError Buffer}
    {opened : Coordinator σ} (htake : c.takeBuffer sink = (answer, opened)) :
    opened.current = none ∧
      match answer with
      | .error _ => before.Tidy none opened.world.staging
      | .ok b => before.Tidy b.file? opened.world.staging ∧ b.kind = sink.kind := by
  unfold takeBuffer at htake
  cases hcur : c.current with
  | some b =>
    have hfile : c.file? = b.file? := by
      rw [file?, hcur]
      rfl
    simp only [hcur] at htake
    cases htake
    exact ⟨rfl, hfile ▸ h.staging, h.kind_eq b hcur⟩
  | none =>
    have hnone := h.staging
    rw [file?_of_none hcur] at hnone
    simp only [hcur] at htake
    cases hcreate : Buffer.create sink.kind c.now c.world.staging with
    | mk outcome staging =>
      have hcreated := Staging.tidy_create hnone hcreate
      rw [hcreate] at htake
      cases htake
      refine ⟨rfl, ?_⟩
      cases outcome with
      | error e => exact hcreated
      | ok b => exact ⟨hcreated, Buffer.kind_create hcreate⟩

omit [ObjectStore σ] in
/-- A record that is appended goes to the file of its buffer, and where it cannot be
appended the file goes with the buffer. -/
theorem tidy_append (h : c.Tidy sink before) (record : Bytes) :
    (c.append sink record).2.Tidy sink before := by
  unfold append
  cases htake : c.takeBuffer sink with
  | mk answer opened =>
    obtain ⟨hgone, htaken⟩ := tidy_takeBuffer h htake
    cases answer with
    | error e => exact tidy_of_none hgone htaken
    | ok b =>
      obtain ⟨hbuffer, hkind⟩ := htaken
      obtain ⟨htouches, hfile⟩ := b.touches_append record opened.world.staging
      simp only
      cases happend : b.append record opened.world.staging with
      | mk outcome staging =>
        rw [happend] at htouches
        have hwritten : before.Tidy b.file? staging := Staging.tidy_touches hbuffer htouches
        cases outcome with
        | error e => exact tidy_of_none hgone (Staging.tidy_discard hwritten)
        | ok b' =>
          refine ⟨?_, fun b₁ hb₁ => ?_⟩
          · show before.Tidy b'.file? staging
            rw [hfile b' staging happend]
            exact hwritten
          · obtain rfl : b' = b₁ := Option.some.inj hb₁
            exact (Buffer.kind_append happend).1.trans hkind

theorem tidy_perform (h : c.Tidy sink before) (move : Move) :
    (c.perform sink move).state.Tidy sink before := by
  cases move with
  | refuse dropped => exact ⟨h.staging, h.kind_eq⟩
  | cut due => exact tidy_cut h due
  | add record =>
    have happended := tidy_append h record
    simp only [perform, add]
    cases happend : c.append sink record with
    | mk added next =>
      rw [happend] at happended
      cases added <;> exact ⟨happended.staging, happended.kind_eq⟩

theorem tidy_call (h : c.Tidy sink before) (call : Call) :
    (c.call sink call).2.Tidy sink before := by
  rw [call_eq]
  exact @performAll_invariant _ _ sink (fun _ next => next.Tidy sink before)
    (fun _ _ move hnext => tidy_perform hnext move) (call.moves sink) [] c h

theorem tidy_runAmid (h : c.Tidy sink before)
    (calls : List ((Nat → Option (Circumstances σ)) × Call)) :
    (c.runAmid sink calls).final.Tidy sink before :=
  @runAmid_invariant _ _ sink (fun _ next => next.Tidy sink before)
    (fun _ _ move hnext => tidy_perform hnext move)
    (fun _ _ around hnext => tidy_amid hnext around) calls [] c h

/-- After any calls, whether they failed or not and whatever surrounded their moves, the one
file that is left of those that the coordinator created is the active buffer's, which has one
if the sink buffers on disk.  All other files are as they were.  After a shutdown none is
left. -/
theorem staging_files_released (sink : Sink) (world : World σ)
    (calls : List ((Nat → Option (Circumstances σ)) × Call)) (last : Circumstances σ) :
    let c := ((start world).runAmid sink calls).final
    let ended := ((c.amid last).shutdown sink).2
    (∀ id, world.staging.created ≤ id → id < c.world.staging.created →
      ((c.world.staging.content? id).isSome = true ↔ c.file? = some id)) ∧
    (∀ id, id < world.staging.created ∨ c.world.staging.created ≤ id →
      c.world.staging.content? id = world.staging.content? id) ∧
    (∀ id, c.file? = some id →
      world.staging.created ≤ id ∧ id < c.world.staging.created) ∧
    (sink.kind = .staged → c.file?.isSome = c.current.isSome) ∧
    ended.current = none ∧
    ∀ id, world.staging.created ≤ id → id < ended.world.staging.created →
      ended.world.staging.content? id = none := by
  intro c ended
  have hc : c.Tidy sink world.staging := tidy_runAmid (tidy_start sink world) calls
  have hended : ended.Tidy sink world.staging := tidy_call (tidy_amid hc last) .shutdown
  have hnone : ended.current = none := current_shutdown sink (c.amid last)
  refine ⟨hc.staging.left_iff, hc.staging.others_eq, hc.staging.created_since, ?_, hnone, ?_⟩
  · intro hstaged
    unfold file?
    cases hcur : c.current with
    | none => rfl
    | some b =>
      have hkind : b.kind = .staged := (hc.kind_eq b hcur).trans hstaged
      rw [Option.bind_some, Buffer.isSome_file?, hkind]
      rfl
  · intro id hle hlt
    have hleft := hended.staging.left_iff id hle hlt
    rw [file?_of_none hnone] at hleft
    cases hcontent : ended.world.staging.content? id with
    | none => rfl
    | some content =>
      rw [hcontent] at hleft
      exact nomatch hleft.mp rfl

end Coordinator

end RecordArchive
