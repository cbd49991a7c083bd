import Mathlib.Algebra.GroupWithZero.Nat
import RecordArchive.Proofs.Coordinator.Ledger

/-!
# What the totals count

The totals are what the deeds of a coordinator count for, and the summary of a
batch tells what was counted for it.  Of the events that went with a buffer the
totals know those that were flushed or lost, and not those of an upload that was
interrupted.  The main statements are `events_foldl`, which says this, and
`agrees_acceptFrom`, about the summaries.
-/

namespace RecordArchive

/-! ## Counting deeds -/

def eventsOf : List Retired → Nat
  | [] => 0
  | r :: rest => r.buffer.count + eventsOf rest

theorem eventsOf_append (a b : List Retired) : eventsOf (a ++ b) = eventsOf a + eventsOf b := by
  induction a with
  | nil => simp [eventsOf]
  | cons r rest ih => simp only [List.cons_append, eventsOf, ih, Nat.add_assoc]

/-- Buffers that held groups of records have as many events as there are records. -/
theorem eventsOf_eq_length {sink : Sink} {rs : List Retired} {groups : List (List Bytes)}
    (h : List.Forall₂ (Retired.Held sink) rs groups) : eventsOf rs = groups.flatten.length := by
  induction h with
  | nil => rfl
  | cons hr _ ih => rw [eventsOf, ih, hr.holds.count_eq, List.flatten_cons, List.length_append]

/-- The buffer whose upload was interrupted. -/
def Deed.interrupted? : Deed → Option Retired
  | uploaded .interrupted r => some r
  | uploaded .stored _ | uploaded .lost _ | refused _ | unopened _ | appended _ _ |
    abandoned _ _ => none

def interrupted (deeds : List Deed) : List Retired := deeds.filterMap Deed.interrupted?

theorem interrupted_append (a b : List Deed) :
    interrupted (a ++ b) = interrupted a ++ interrupted b :=
  List.filterMap_append

theorem interrupted_cons (deed : Deed) (deeds : List Deed) :
    interrupted (deed :: deeds) = deed.interrupted?.toList ++ interrupted deeds := by
  cases deed with
  | uploaded fate r => cases fate <;> rfl
  | refused | unopened | appended | abandoned => rfl

theorem eventsAccepted_foldl (deeds : List Deed) (t : Tally) :
    (deeds.foldl Deed.count t).eventsAccepted = t.eventsAccepted + (appended deeds).length := by
  induction deeds generalizing t with
  | nil => rfl
  | cons deed rest ih =>
    have hone : (deed.count t).eventsAccepted = t.eventsAccepted + deed.record?.toList.length := by
      cases deed with
      | refused | unopened | appended => rfl
      | abandoned record r =>
        simp only [Deed.count, Tally.abandoned]
        split <;> rfl
      | uploaded fate r => cases fate <;> rfl
    rw [List.foldl_cons, ih, hone, appended_cons, List.length_append]
    omega

/-- A buffer that leaves is flushed, lost, or interrupted, with all its events. -/
theorem events_foldl (deeds : List Deed) (t : Tally) :
    (deeds.foldl Deed.count t).eventsFlushed + (deeds.foldl Deed.count t).eventsLost +
        eventsOf (interrupted deeds) =
      t.eventsFlushed + t.eventsLost + eventsOf (retirements deeds) := by
  induction deeds generalizing t with
  | nil => rfl
  | cons deed rest ih =>
    have hone : (deed.count t).eventsFlushed + (deed.count t).eventsLost +
        eventsOf deed.interrupted?.toList =
          t.eventsFlushed + t.eventsLost + eventsOf deed.retired?.toList := by
      cases deed with
      | refused | unopened | appended => rfl
      | abandoned record r =>
        simp only [Deed.count, Tally.abandoned, Deed.interrupted?, Deed.retired?,
          Option.toList_none, Option.toList_some, eventsOf]
        split
        · simp only [Tally.lost]
          omega
        · simp only
          omega
      | uploaded fate r =>
        cases fate <;>
          simp only [Deed.count, Fate.count, Tally.flushed, Tally.lost, Deed.interrupted?,
            Deed.retired?, Option.toList_none, Option.toList_some, eventsOf] <;>
          omega
    have hrest := ih (deed.count t)
    rw [List.foldl_cons, interrupted_cons, retirements_cons, eventsOf_append, eventsOf_append]
    omega

theorem flushed_foldl {deeds : List Deed} (h : ∀ deed ∈ deeds, deed.Consistent) (t : Tally) :
    (deeds.foldl Deed.count t).buffersFlushed =
        t.buffersFlushed + ((retirements deeds).flatMap (·.puts)).countP Put.succeeded ∧
      (deeds.foldl Deed.count t).bytesFlushed =
        t.bytesFlushed + storedBytes ((retirements deeds).flatMap (·.puts)) := by
  induction deeds generalizing t with
  | nil => exact ⟨rfl, rfl⟩
  | cons deed rest ih =>
    have hdeed := h deed List.mem_cons_self
    have hone : (deed.count t).buffersFlushed = t.buffersFlushed +
          (deed.retired?.toList.flatMap (·.puts)).countP Put.succeeded ∧
        (deed.count t).bytesFlushed =
          t.bytesFlushed + storedBytes (deed.retired?.toList.flatMap (·.puts)) := by
      cases deed with
      | refused | unopened | appended => exact ⟨rfl, rfl⟩
      | abandoned record r =>
        have hnone : r.puts = [] := hdeed
        simp only [Deed.count, Tally.abandoned, Deed.retired?, Option.toList_some,
          List.flatMap_singleton, hnone]
        split <;> exact ⟨rfl, rfl⟩
      | uploaded fate r =>
        obtain ⟨-, hcount, hbytes⟩ := hdeed
        simp only [Deed.retired?, Option.toList_some, List.flatMap_singleton, hcount, hbytes]
        cases fate <;> simp [Deed.count, Fate.count, Fate.timesStored, Tally.flushed, Tally.lost]
    obtain ⟨hbuffers, hbytes⟩ := hone
    obtain ⟨ihbuffers, ihbytes⟩ :=
      ih (fun d hd => h d (List.mem_cons_of_mem _ hd)) (deed.count t)
    rw [List.foldl_cons, retirements_cons, List.flatMap_append, List.countP_append,
      storedBytes_append]
    exact ⟨by omega, by omega⟩

/-- Buffers are lost together with events. -/
theorem lost_foldl {deeds : List Deed} (h : ∀ deed ∈ deeds, deed.Consistent) {t : Tally}
    (ht : t.buffersLost = 0 ↔ t.eventsLost = 0) :
    (deeds.foldl Deed.count t).buffersLost = 0 ↔ (deeds.foldl Deed.count t).eventsLost = 0 := by
  induction deeds generalizing t with
  | nil => exact ht
  | cons deed rest ih =>
    refine ih (fun d hd => h d (List.mem_cons_of_mem _ hd)) ?_
    have hdeed := h deed List.mem_cons_self
    cases deed with
    | refused | unopened | appended => exact ht
    | abandoned record r =>
      simp only [Deed.count, Tally.abandoned]
      split
      · simp only [Tally.lost]
        omega
      · exact ht
    | uploaded fate r =>
      have hpos := hdeed.1
      cases fate with
      | stored => exact ht
      | interrupted => exact ht
      | lost =>
        simp only [Deed.count, Fate.count, Tally.lost]
        omega

/-- An interrupted upload takes events with it. -/
theorem eventsOf_interrupted_eq_zero_iff {deeds : List Deed}
    (h : ∀ deed ∈ deeds, deed.Consistent) :
    eventsOf (interrupted deeds) = 0 ↔ interrupted deeds = [] := by
  induction deeds with
  | nil => exact ⟨fun _ => rfl, fun _ => rfl⟩
  | cons deed rest ih =>
    have hdeed := h deed List.mem_cons_self
    have hrest := ih fun d hd => h d (List.mem_cons_of_mem _ hd)
    rw [interrupted_cons, eventsOf_append, List.append_eq_nil_iff, Nat.add_eq_zero_iff, hrest]
    refine and_congr_left fun _ => ?_
    cases deed with
    | refused | unopened | appended | abandoned => exact ⟨fun _ => rfl, fun _ => rfl⟩
    | uploaded fate r =>
      cases fate with
      | stored | lost => exact ⟨fun _ => rfl, fun _ => rfl⟩
      | interrupted =>
        have hpos : 0 < r.buffer.count := hdeed.1
        simp only [Deed.interrupted?, Option.toList_some, eventsOf]
        exact ⟨fun h => by omega, fun h => by cases h⟩

/-! ## What a call tells -/

/-- Between two moments no record was accepted or dropped. -/
structure Tally.SameIntake (t t' : Tally) : Prop where
  accepted_eq : t'.eventsAccepted = t.eventsAccepted
  dropped_eq : t'.eventsDropped = t.eventsDropped
  failures_eq : t'.encodeFailures = t.encodeFailures

/-- Of so many records that were taken, the summary tells what the totals count. -/
structure Summary.Agrees (taken : Nat) (s s' : Summary) (t t' : Tally) : Prop where
  taken_eq : s'.appended + s'.dropped = s.appended + s.dropped + taken
  accepted_eq : t'.eventsAccepted + s.appended = t.eventsAccepted + s'.appended
  dropped_eq : t'.eventsDropped + s.dropped = t.eventsDropped + s'.dropped
  failures_eq : t'.encodeFailures + s.encodeFailures = t.encodeFailures + s'.encodeFailures

namespace Summary

variable {s s' s'' : Summary} {t t' t'' : Tally}

theorem Agrees.trans {m n : Nat} (h : Agrees m s s' t t') (h' : Agrees n s' s'' t' t'') :
    Agrees (m + n) s s'' t t'' := by
  have htaken := h.taken_eq
  have haccepted := h.accepted_eq
  have hdropped := h.dropped_eq
  have hfailures := h.failures_eq
  have htaken' := h'.taken_eq
  have haccepted' := h'.accepted_eq
  have hdropped' := h'.dropped_eq
  have hfailures' := h'.failures_eq
  constructor <;> omega

theorem agrees_refuse (s : Summary) (t : Tally) (dropped : Nat) :
    Agrees dropped s (s.refuse dropped) t (t.refuse dropped) := by
  constructor <;> simp only [Summary.refuse, Tally.refuse] <;> omega

end Summary

/-- So many records are taken by a move. -/
def Move.taken : Move → Nat
  | refuse dropped => dropped
  | cut _ => 0
  | add _ => 1

/-- The moves of a call take the records of its batch, whatever is done with them. -/
theorem Call.taken_moves (sink : Sink) (call : Call) :
    ((call.moves sink).map Move.taken).sum = call.batch.length := by
  cases call with
  | flushExpired | shutdown => rfl
  | accept batch =>
    show ((sink.moves batch).map Move.taken).sum = batch.length
    induction batch with
    | nil => rfl
    | cons record rest ih =>
      unfold Sink.moves
      cases sink.codec.encode record with
      | error fault =>
        cases sink.policy with
        | abort => rfl
        | skip =>
          rw [List.map_cons, List.sum_cons, ih, List.length_cons, Nat.add_comm]
          rfl
      | ok bytes =>
        rw [List.map_cons, List.sum_cons, List.map_cons, List.sum_cons, ih, List.length_cons]
        show 0 + (1 + rest.length) = _
        omega

namespace Coordinator

variable {σ : Type}

def activeCount (c : Coordinator σ) : Nat :=
  match c.current with
  | none => 0
  | some b => b.count

theorem Holds.activeCount_eq {c : Coordinator σ} {records : List Bytes} (h : c.Holds records) :
    c.activeCount = records.length := by
  unfold activeCount
  cases hc : c.current with
  | none => simp [h.of_none hc]
  | some b => exact (h.of_some hc).2.count_eq

/-- The events of the records that were appended are all accounted for. -/
theorem eventsAccepted_eq {sink : Sink} {old : List Put} {deeds : List Deed} {c : Coordinator σ}
    {groups : List (List Bytes)} {active : List Bytes}
    (h : Ledger sink old deeds c groups active) :
    c.tally.eventsAccepted = c.tally.eventsFlushed + c.tally.eventsLost + c.activeCount +
      eventsOf (interrupted deeds) := by
  have haccepted := eventsAccepted_foldl deeds {}
  have hevents := events_foldl deeds {}
  have hlength := congrArg List.length h.appended_eq
  rw [List.length_map, List.length_append, ← eventsOf_eq_length h.retired,
    ← h.holds.activeCount_eq] at hlength
  rw [h.tally_eq]
  simp only at haccepted hevents
  omega

theorem takeBuffer_tally (sink : Sink) (c : Coordinator σ) :
    (c.takeBuffer sink).2.tally = c.tally := by
  unfold takeBuffer
  cases c.current <;> rfl

theorem agrees_add (sink : Sink) (record : Bytes) (s : Summary) (c : Coordinator σ) :
    s.Agrees 1 (s.add (c.add sink record).1) c.tally (c.add sink record).2.tally := by
  have htally := takeBuffer_tally sink c
  unfold add append
  generalize c.takeBuffer sink = taken at htally
  obtain ⟨answer, opened⟩ := taken
  simp only at htally
  cases answer with
  | error e => constructor <;> simp [Summary.add, htally] <;> omega
  | ok b =>
    simp only
    cases b.append record opened.world.staging with
    | mk answer staging =>
      cases answer with
      | ok b' => constructor <;> simp [Summary.add, htally] <;> omega
      | error e =>
        have hsame : c.tally.SameIntake (opened.tally.abandoned b) := by
          rw [htally, Tally.abandoned]
          split <;> exact ⟨rfl, rfl, rfl⟩
        obtain ⟨haccepted, hdropped, hfailures⟩ := hsame
        constructor <;> simp [Summary.add, haccepted, hdropped, hfailures] <;> omega

variable [ObjectStore σ]

/-- A buffer that is retired takes no record with it. -/
theorem sameIntake_retire (sink : Sink) (b : Buffer) (c : Coordinator σ) :
    c.tally.SameIntake (retire sink b c).2.tally := by
  unfold retire
  by_cases hempty : b.count = 0
  · simp only [hempty, if_true]
    exact ⟨rfl, rfl, rfl⟩
  · simp only [hempty, if_false]
    cases c.world.drawId.2.flush sink.retrier
      ⟨sink.bucket, sink.namer.key c.world.instant c.world.drawId.1⟩ b with
    | mk answer world =>
      cases answer with
      | error e => exact ⟨rfl, rfl, rfl⟩
      | ok uploaded => cases uploaded <;> exact ⟨rfl, rfl, rfl⟩

theorem sameIntake_flushWhen (sink : Sink) (due : Snapshot → Bool) (c : Coordinator σ) :
    c.tally.SameIntake (c.flushWhen sink due).2.tally := by
  unfold flushWhen
  cases c.current with
  | none => exact ⟨rfl, rfl, rfl⟩
  | some b =>
    by_cases hdue : due (b.snapshot c.now) = true
    · have hretire := sameIntake_retire sink b { c with current := none }
      simp only [hdue, if_true]
      generalize retire sink b { c with current := none } = retired at hretire
      obtain ⟨answer, next⟩ := retired
      cases answer with
      | error e => exact hretire
      | ok u => exact hretire
    · simp only [hdue, Bool.false_eq_true, if_false]
      exact ⟨rfl, rfl, rfl⟩

theorem agrees_cut (sink : Sink) (due : Snapshot → Bool) (s : Summary) (c : Coordinator σ)
    (flushed : Bool) :
    s.Agrees 0 (s.cut flushed) c.tally (c.flushWhen sink due).2.tally := by
  obtain ⟨haccepted, hdropped, hfailures⟩ := sameIntake_flushWhen sink due c
  have hcut : (s.cut flushed).appended = s.appended ∧ (s.cut flushed).dropped = s.dropped ∧
      (s.cut flushed).encodeFailures = s.encodeFailures := by
    cases flushed <;> exact ⟨rfl, rfl, rfl⟩
  obtain ⟨happended', hdropped', hfailures'⟩ := hcut
  constructor <;> omega

/-- The summary of a batch tells what the totals count for it. -/
theorem agrees_acceptFrom (sink : Sink) (records : List Record) (c : Coordinator σ)
    {summary told : Summary} (h : (c.acceptFrom sink summary records).1 = .ok told) :
    summary.Agrees records.length told c.tally (c.acceptFrom sink summary records).2.tally := by
  induction records generalizing summary c with
  | nil =>
    cases h
    constructor <;> rfl
  | cons record rest ih =>
    unfold acceptFrom at h ⊢
    rw [List.length_cons, Nat.add_comm]
    cases hcode : sink.codec.encode record with
    | error fault =>
      simp only [hcode] at h ⊢
      cases hpolicy : sink.policy with
      | abort =>
        simp only [hpolicy] at h ⊢
        cases h
        rw [Nat.add_comm]
        exact Summary.agrees_refuse summary c.tally (rest.length + 1)
      | skip =>
        simp only [hpolicy] at h ⊢
        exact (Summary.agrees_refuse summary c.tally 1).trans (ih (c.refuse 1) h)
    | ok bytes =>
      simp only [hcode] at h ⊢
      have hcut := agrees_cut sink sink.limits.shouldFlush summary c
      cases hflush : c.flushWhen sink sink.limits.shouldFlush with
      | mk outcome next =>
        rw [hflush] at hcut
        simp only [hflush] at h ⊢
        cases outcome with
        | error e => cases h
        | ok flushed =>
          have hadd := agrees_add sink bytes (summary.cut flushed) next
          have hone := (hcut flushed).trans hadd
          rw [Nat.zero_add] at hone
          exact hone.trans (ih _ h)

/-! ## What moves take -/

/-- A move takes the records that it refuses, or the one that it adds. -/
theorem taken_perform (sink : Sink) (c : Coordinator σ) (move : Move) :
    (c.perform sink move).state.tally.eventsAccepted +
        (c.perform sink move).state.tally.eventsDropped =
      c.tally.eventsAccepted + c.tally.eventsDropped + move.taken := by
  cases move with
  | refuse dropped => exact (Nat.add_assoc _ _ _).symm
  | cut due =>
    obtain ⟨haccepted, hdropped, -⟩ := sameIntake_flushWhen sink due c
    show (c.flushWhen sink due).2.tally.eventsAccepted +
      (c.flushWhen sink due).2.tally.eventsDropped = _
    rw [haccepted, hdropped]
    rfl
  | add record =>
    obtain ⟨htaken, haccepted, hdropped, -⟩ := agrees_add sink record {} c
    show (c.add sink record).2.tally.eventsAccepted +
      (c.add sink record).2.tally.eventsDropped = _ + 1
    simp only at htaken haccepted hdropped
    omega

/-- Moves that all succeed take what each of them takes. -/
theorem taken_performAmid (sink : Sink) (around : Nat → Option (Circumstances σ))
    (moves : List Move) (c : Coordinator σ)
    (h : (c.performAmid sink around moves).outcome = .ok ()) :
    (c.performAmid sink around moves).state.tally.eventsAccepted +
        (c.performAmid sink around moves).state.tally.eventsDropped =
      c.tally.eventsAccepted + c.tally.eventsDropped + (moves.map Move.taken).sum := by
  induction moves generalizing around c with
  | nil => rfl
  | cons move rest ih =>
    have hmove := taken_perform sink (c.amid? (around 0)) move
    rw [tally_amid?] at hmove
    simp only [performAmid] at h ⊢
    cases hout : ((c.amid? (around 0)).perform sink move).outcome with
    | error e =>
      rw [hout] at h
      cases h
    | ok u =>
      simp only [hout] at h ⊢
      rw [ih _ _ h, hmove, List.map_cons, List.sum_cons]
      omega

/-- Calls that all succeed accept or drop every record that they bring. -/
theorem taken_runAmid (sink : Sink) (calls : List ((Nat → Option (Circumstances σ)) × Call))
    (c : Coordinator σ) (h : ∀ outcome ∈ (c.runAmid sink calls).outcomes, outcome = .ok ()) :
    (c.runAmid sink calls).final.tally.eventsAccepted +
        (c.runAmid sink calls).final.tally.eventsDropped =
      c.tally.eventsAccepted + c.tally.eventsDropped +
        (calls.flatMap fun entry => entry.2.batch).length := by
  induction calls generalizing c with
  | nil => rfl
  | cons entry rest ih =>
    obtain ⟨around, call⟩ := entry
    simp only [runAmid] at h ⊢
    have hcall := taken_performAmid sink _ (call.moves sink) (c.amid? (around 0))
      (h _ List.mem_cons_self)
    have hrest := ih _ fun outcome ho => h outcome (List.mem_cons_of_mem _ ho)
    rw [hrest, hcall, tally_amid?, call.taken_moves]
    simp only [List.flatMap_cons, List.length_append]
    omega

end Coordinator

end RecordArchive
