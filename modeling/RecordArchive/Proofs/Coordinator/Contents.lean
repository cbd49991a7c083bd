import RecordArchive.Proofs.Coordinator.Counting

/-!
# Nothing is lost between buffers

Whatever becomes of the buffers of a sink, together they hold every record that was
appended, in order, once, and whole.  The main statement is `contents_conserved`.
It asks nothing of the calls: they may find any clock, any store, a staging
directory that cannot be used and a disk that is full, they may be cancelled, and all
of that may change before every one of their moves.
-/

namespace RecordArchive

def Move.record? : Move → Option Bytes
  | add record => some record
  | refuse _ | cut _ => none

/-- The moves of a batch bring its records that can be encoded, unless the batch is
aborted before. -/
theorem Sink.moves_sublist (sink : Sink) (records : List Record) :
    ((sink.moves records).filterMap Move.record?).Sublist
      ((Call.accept records).encodings sink) := by
  induction records with
  | nil => exact List.Sublist.refl _
  | cons record rest ih =>
    simp only [Call.encodings, Call.batch] at ih
    simp only [Sink.moves, Call.encodings, Call.batch]
    cases hcode : sink.codec.encode record with
    | error fault =>
      have hnone : (sink.codec.encode record).toOption = none := by rw [hcode]; rfl
      simp only [List.filterMap_cons, hnone]
      cases sink.policy with
      | abort => exact List.nil_sublist _
      | skip => exact ih
    | ok bytes =>
      have hsome : (sink.codec.encode record).toOption = some bytes := by rw [hcode]; rfl
      simp only [List.filterMap_cons, hsome, Move.record?]
      exact ih.cons_cons bytes

/-- The record that a deed was about. -/
def Deed.brought? : Deed → Option Bytes
  | unopened record | appended record _ | abandoned record _ => some record
  | refused _ | uploaded _ _ => none

theorem appended_sublist_brought (deeds : List Deed) :
    (appended deeds).Sublist (deeds.filterMap Deed.brought?) := by
  induction deeds with
  | nil => exact List.Sublist.refl _
  | cons deed rest ih =>
    cases deed with
    | appended record before => exact ih.cons_cons record
    | unopened record | abandoned record r => exact ih.cons record
    | refused dropped | uploaded fate r => exact ih

namespace Coordinator

variable {σ : Type} [ObjectStore σ]

/-- A record is appended, or it finds no buffer, or it spoils the one that it finds. -/
theorem brought_perform (sink : Sink) (c : Coordinator σ) (move : Move) :
    (c.perform sink move).deeds.filterMap Deed.brought? = move.record?.toList := by
  cases move with
  | refuse dropped => rfl
  | cut due =>
    simp only [perform, cutDeeds]
    split
    · rfl
    · split <;> rfl
  | add record =>
    simp only [perform, addDeeds]
    split
    · rfl
    · split <;> rfl

theorem brought_performAmid (sink : Sink) (around : Nat → Option (Circumstances σ))
    (moves : List Move) (c : Coordinator σ) :
    ((c.performAmid sink around moves).deeds.filterMap Deed.brought?).Sublist
      (moves.filterMap Move.record?) := by
  induction moves generalizing around c with
  | nil => exact List.Sublist.refl _
  | cons move rest ih =>
    have hmove := brought_perform sink (c.amid? (around 0)) move
    have hcons : (move :: rest).filterMap Move.record? =
        move.record?.toList ++ rest.filterMap Move.record? := by
      cases move <;> rfl
    simp only [performAmid]
    rw [hcons]
    cases ((c.amid? (around 0)).perform sink move).outcome with
    | error e =>
      rw [hmove]
      exact List.sublist_append_left _ _
    | ok u =>
      simp only [List.filterMap_append]
      rw [hmove]
      exact (ih _ _).append_left _

/-- The records that deeds are about are those of the calls, in order and each once. -/
theorem brought_runAmid (sink : Sink)
    (calls : List ((Nat → Option (Circumstances σ)) × Call)) (c : Coordinator σ) :
    ((c.runAmid sink calls).deeds.filterMap Deed.brought?).Sublist
      (calls.flatMap fun entry => entry.2.encodings sink) := by
  induction calls generalizing c with
  | nil => exact List.Sublist.refl _
  | cons entry rest ih =>
    obtain ⟨around, call⟩ := entry
    have hmoves := brought_performAmid sink (fun n => around (n + 1)) (call.moves sink)
      (c.amid? (around 0))
    have hcall : ((call.moves sink).filterMap Move.record?).Sublist (call.encodings sink) := by
      cases call with
      | accept batch => exact sink.moves_sublist batch
      | flushExpired => exact List.nil_sublist _
      | shutdown => exact List.nil_sublist _
    simp only [runAmid, List.filterMap_append, List.flatMap_cons]
    exact (hmoves.trans hcall).append (ih _)

/-- A run appends records that it was given, in the order in which it was given them. -/
theorem appended_runAmid (sink : Sink)
    (calls : List ((Nat → Option (Circumstances σ)) × Call)) (c : Coordinator σ) :
    (appended (c.runAmid sink calls).deeds).Sublist
      (calls.flatMap fun entry => entry.2.encodings sink) :=
  (appended_sublist_brought _).trans (brought_runAmid sink calls c)

theorem appended_run (sink : Sink) (calls : List (Circumstances σ × Call)) (c : Coordinator σ) :
    (appended (c.run sink calls).deeds).Sublist
      (calls.flatMap fun entry => entry.2.encodings sink) := by
  have h := appended_runAmid sink (settled calls) c
  rwa [runAmid_settled, settled, List.flatMap_map] at h

/-- Whatever surrounds the moves of a run, the records that were appended, each ended by
a line feed, are those of the buffers that were given up, one buffer after the other, and
then those of the active buffer.  Every buffer held its records whole, and every put made
for it offered all of them under one name; no other puts were made. -/
theorem contents_conserved (sink : Sink) (world : World σ)
    (calls : List ((Nat → Option (Circumstances σ)) × Call)) :
    let history := (start world).runAmid sink calls
    (appended history.deeds).Sublist (calls.flatMap fun entry => entry.2.encodings sink) ∧
    (appended history.deeds).length = history.final.tally.eventsAccepted ∧
    ∃ groups active,
      (appended history.deeds).map Bytes.terminated = groups.flatten ++ active ∧
      List.Forall₂ (Retired.Held sink) (retirements history.deeds) groups ∧
      history.final.Holds active ∧
      history.final.world.puts.reverse =
        world.puts.reverse ++ (retirements history.deeds).flatMap (·.puts) := by
  intro history
  obtain ⟨groups, active, h⟩ := ledger_runAmid sink world calls
  refine ⟨appended_runAmid sink calls (start world), ?_, groups, active, h.appended_eq, h.retired,
    h.holds, h.puts_eq⟩
  have hcount := eventsAccepted_foldl history.deeds {}
  rw [← h.tally_eq] at hcount
  simpa using hcount.symm

end Coordinator

end RecordArchive
