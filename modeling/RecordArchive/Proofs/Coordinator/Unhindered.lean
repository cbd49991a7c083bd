import RecordArchive.Proofs.Coordinator.Calm
import RecordArchive.Proofs.Coordinator.Contents

/-!
# Calls of a run that is never cancelled

In a run that is never cancelled, with staging files to which every write succeeds, calls
do not fail and every record that can be encoded is appended, whatever the store does:
`complete_call`.  If no upload was lost either, the objects of the store are all that was
appended: `stored_of_complete`.
-/

namespace RecordArchive

variable {σ : Type}

/-! ## Uploads -/

/-- A pause is made to its end where nothing is cancelled. -/
theorem Retrier.rest_of_uncancelled (r : Retrier) (fractions : Fractions) {p : Progress σ}
    (h : p.clock.cancelAt = none) :
    ∃ q, p.rest r fractions = (false, q) ∧ q.clock.cancelAt = none := by
  have hpause (d : Duration) : (p.clock.pause d).1 = false ∧
      (p.clock.pause d).2.cancelAt = none := by
    unfold Clock.pause
    rw [h]
    exact ⟨rfl, rfl⟩
  obtain ⟨hwhole, hfree⟩ := hpause (r.pauseFor (fractions.parts p.drawn))
  exact ⟨(p.rest r fractions).2, Prod.ext hwhole rfl, hfree⟩

/-- A loop that is never cancelled ends by a success or when its budget is spent. -/
theorem Retrier.loop_of_uncancelled (r : Retrier) (fractions : Fractions)
    (operation : σ → Attempt σ) (budget : Nat) {p : Progress σ} (h : p.clock.cancelAt = none) :
    (r.loop fractions operation budget p).1 ≠ .cancelled ∧
      (r.loop fractions operation budget p).2.clock.cancelAt = none := by
  induction budget generalizing p with
  | zero => exact ⟨by simp [loop], h⟩
  | succ left ih =>
    have hgoing : p.clock.isCancelled = false := by rw [Clock.isCancelled, h]; rfl
    have hafter : (p.attemptOnce operation).2.clock.cancelAt = none := h
    unfold loop
    simp only [hgoing, Bool.false_eq_true, if_false]
    generalize p.attemptOnce operation = attempted at hafter
    obtain ⟨outcome, q⟩ := attempted
    cases outcome with
    | ok u => exact ⟨by simp, hafter⟩
    | error e =>
      by_cases hlast : left = 0
      · simp only [hlast, if_true]
        exact ⟨by simp, hafter⟩
      · obtain ⟨q', hrest, hfree⟩ := rest_of_uncancelled r fractions hafter
        simp only [hlast, if_false, hrest]
        exact ih hfree

namespace World

variable [ObjectStore σ] {w : World σ}

theorem upload_of_uncancelled (h : w.clock.cancelAt = none) (retrier : Retrier)
    (name : ObjectName) (body : Body) :
    ∃ stored w', w.upload retrier name body = (.ok stored, w') ∧
      w'.clock.cancelAt = none ∧ w'.staging = w.staging := by
  obtain ⟨hverdict, hclock⟩ := retrier.loop_of_uncancelled w.chance.fractions (offer name body)
    retrier.attempts (p := ⟨w.clock, w.fractionsDrawn, 0, (w.store, w.puts)⟩) h
  unfold upload Retrier.run
  generalize retrier.loop w.chance.fractions (offer name body) retrier.attempts
    ⟨w.clock, w.fractionsDrawn, 0, (w.store, w.puts)⟩ = looped at hverdict hclock
  obtain ⟨verdict, p⟩ := looped
  cases verdict with
  | succeeded => exact ⟨true, _, rfl, hclock, rfl⟩
  | exhausted => exact ⟨false, _, rfl, hclock, rfl⟩
  | cancelled => exact absurd rfl hverdict

theorem flush_of_uncancelled (h : w.clock.cancelAt = none) {kind : BufferKind}
    (hserves : w.staging.Serves kind) (retrier : Retrier) (name : ObjectName) {b : Buffer}
    (hsound : b.Sound kind) :
    ∃ stored w', w.flush retrier name b = (.ok stored, w') ∧
      w'.clock.cancelAt = none ∧ w'.staging.Serves kind := by
  obtain ⟨staging, hfinish, hserves'⟩ := Buffer.finish_of_serves hsound hserves
  obtain ⟨stored, w', hupload, hclock, hstaging⟩ :=
    upload_of_uncancelled (w := { w with staging := staging }) h retrier name
      (bodyOf { w with staging := staging } b)
  unfold flush
  simp only [hfinish, hupload]
  refine ⟨stored, _, rfl, hclock, Buffer.serves_discard ?_⟩
  rw [hstaging]
  exact hserves'

end World

namespace Coordinator

/-! ## Moves -/

/-- Nothing stands in the way of a record of the active buffer, or of another one. -/
structure Unhindered (kind : BufferKind) (c : Coordinator σ) : Prop where
  uncancelled : c.world.clock.cancelAt = none
  serves : c.world.staging.Serves kind
  sound : ∀ b, c.current = some b → b.Sound kind

end Coordinator

/-- A record was appended, or a buffer was offered to the store until it was taken or the
attempts were used up. -/
def Deed.Unhindered : Deed → Prop
  | appended _ _ => True
  | uploaded fate _ => fate ≠ .interrupted
  | refused _ | unopened _ | abandoned _ _ => False

namespace Coordinator

variable [ObjectStore σ] {sink : Sink} {c : Coordinator σ}

theorem retire_of_unhindered {b : Buffer} (h : c.Unhindered sink.kind) (hb : b.Sound sink.kind) :
    ∃ next, retire sink b c = (.ok (), next) ∧ next.world.clock.cancelAt = none ∧
      next.world.staging.Serves sink.kind := by
  unfold retire
  by_cases hempty : b.count = 0
  · rw [if_pos hempty]
    exact ⟨_, rfl, h.uncancelled, Buffer.serves_discard h.serves⟩
  · rw [if_neg hempty]
    obtain ⟨stored, world, hflush, hclock, hserves⟩ := World.flush_of_uncancelled
      (w := c.world.drawId.2) h.uncancelled h.serves sink.retrier
      ⟨sink.bucket, sink.namer.key c.world.instant c.world.drawId.1⟩ hb
    simp only [hflush]
    exact ⟨_, rfl, hclock, hserves⟩

/-- What moves did when nothing stood in their way. -/
structure Succeeds (kind : BufferKind) (records : List Bytes) (course : Course σ) : Prop where
  outcome_eq : course.outcome = .ok ()
  appended_eq : appended course.deeds = records
  deeds_unhindered : ∀ deed ∈ course.deeds, deed.Unhindered
  unhindered : course.state.Unhindered kind

theorem succeeds_cut (h : c.Unhindered sink.kind) (due : Snapshot → Bool) :
    Succeeds sink.kind [] (c.perform sink (.cut due)) := by
  rcases perform_cut_cases sink due c with ⟨-, hstill⟩ | ⟨b, outcome, next, hcur, -, hretire, hcut⟩
  · rw [hstill]
    exact ⟨rfl, rfl, fun _ hd => (List.not_mem_nil hd).elim, h⟩
  · obtain ⟨next', hretired, hclock, hserves⟩ :=
      retire_of_unhindered (c := { c with current := none }) ⟨h.uncancelled, h.serves, nofun⟩
        (h.sound b hcur)
    have hgone := current_retire sink b { c with current := none }
    rw [hretire] at hretired hgone
    obtain ⟨rfl, rfl⟩ := Prod.mk.inj hretired
    rw [hcut]
    refine ⟨rfl, rfl, fun deed hd => ?_, hclock, hserves, fun b' hb' => ?_⟩
    · rw [List.mem_singleton.mp hd]
      show Fate.of _ _ _ ≠ .interrupted
      unfold Fate.of
      simp only
      split <;> simp
    · rw [hgone] at hb'
      cases hb'

theorem succeeds_add (h : c.Unhindered sink.kind) (record : Bytes) :
    Succeeds sink.kind [record] (c.perform sink (.add record)) := by
  obtain ⟨b, opened, htake, hsound, hclock, hserves⟩ : ∃ b opened,
      c.takeBuffer sink = (.ok b, opened) ∧ b.Sound sink.kind ∧
        opened.world.clock.cancelAt = none ∧ opened.world.staging.Serves sink.kind := by
    unfold takeBuffer
    cases hcur : c.current with
    | some b => exact ⟨b, _, rfl, h.sound b hcur, h.uncancelled, h.serves⟩
    | none =>
      obtain ⟨b, s, hnew, hsound, hserves⟩ := Buffer.create_of_serves h.serves c.now
      simp only [hnew]
      exact ⟨b, _, rfl, hsound, h.uncancelled, hserves⟩
  obtain ⟨b', s', happend, hsound', hserves'⟩ := Buffer.append_of_serves hsound hserves record
  simp only [perform, add, append, addDeeds, htake, happend, if_true]
  refine ⟨rfl, rfl, fun deed hd => ?_, hclock, hserves', fun b'' hb'' => ?_⟩
  · rw [List.mem_singleton.mp hd]
    trivial
  · cases hb''
    exact hsound'

theorem succeeds_performAll (h : c.Unhindered sink.kind) {moves : List Move}
    (hmoves : ∀ n, .refuse n ∉ moves) :
    Succeeds sink.kind (moves.filterMap Move.record?) (c.performAll sink moves) := by
  induction moves generalizing c with
  | nil => exact ⟨rfl, rfl, fun _ hd => (List.not_mem_nil hd).elim, h⟩
  | cons move rest ih =>
    have hfirst : Succeeds sink.kind move.record?.toList (c.perform sink move) := by
      cases move with
      | refuse n => exact absurd List.mem_cons_self (hmoves n)
      | cut due => exact succeeds_cut h due
      | add record => exact succeeds_add h record
    have hrest := ih hfirst.unhindered fun n hn => hmoves n (List.mem_cons_of_mem _ hn)
    have hrecords : (move :: rest).filterMap Move.record? =
        move.record?.toList ++ rest.filterMap Move.record? := by
      cases move <;> rfl
    simp only [performAll, hfirst.outcome_eq]
    refine ⟨hrest.outcome_eq, ?_, fun deed hd => ?_, hrest.unhindered⟩
    · rw [hrecords, ← hfirst.appended_eq, ← hrest.appended_eq]
      exact List.filterMap_append
    · rcases List.mem_append.mp hd with hd | hd
      · exact hfirst.deeds_unhindered deed hd
      · exact hrest.deeds_unhindered deed hd

end Coordinator

/-! ## Calls -/

theorem Sink.moves_of_encodable {sink : Sink} {records : List Record}
    (h : ∀ record ∈ records, ∃ bytes, sink.codec.encode record = .ok bytes) :
    (∀ n, .refuse n ∉ sink.moves records) ∧
      (sink.moves records).filterMap Move.record? = (Call.accept records).encodings sink := by
  induction records with
  | nil => exact ⟨fun _ hn => (List.not_mem_nil hn).elim, rfl⟩
  | cons record rest ih =>
    obtain ⟨⟨bytes, hcode⟩, hrest⟩ := List.forall_mem_cons.mp h
    obtain ⟨hmoves, hrecords⟩ := ih hrest
    have hbytes : (sink.codec.encode record).toOption = some bytes := by rw [hcode]; rfl
    simp only [Call.encodings, Call.batch] at hrecords ⊢
    simp only [Sink.moves, hcode]
    constructor
    · intro n hn
      simp only [List.mem_cons, reduceCtorEq, false_or] at hn
      exact hmoves n hn
    · simp only [List.filterMap_cons, Move.record?, hbytes, hrecords]

theorem Call.moves_of_encodable {sink : Sink} {call : Call}
    (h : ∀ record ∈ call.batch, ∃ bytes, sink.codec.encode record = .ok bytes) :
    (∀ n, .refuse n ∉ call.moves sink) ∧
      (call.moves sink).filterMap Move.record? = call.encodings sink := by
  cases call with
  | accept batch => exact Sink.moves_of_encodable h
  | flushExpired | shutdown =>
    refine ⟨fun n hn => ?_, rfl⟩
    cases List.mem_singleton.mp hn

namespace Coordinator

/-- These records were appended, in order, and nothing else was done with any record. -/
def Complete (sink : Sink) (old : List Put) (records : List Bytes) (c : Coordinator σ) : Prop :=
  c.Unhindered sink.kind ∧ ∃ deeds groups active, Ledger sink old deeds c groups active ∧
    appended deeds = records ∧ ∀ deed ∈ deeds, deed.Unhindered

section Completing

variable {sink : Sink} {old : List Put} {records : List Bytes} {c : Coordinator σ}

theorem complete_start {world : World σ} (hclock : world.clock.cancelAt = none)
    (hserves : world.staging.Serves sink.kind) :
    (start world).Complete sink world.puts.reverse [] :=
  ⟨⟨hclock, hserves, nofun⟩, [], [], [], ledger_start sink world, rfl, by simp⟩

theorem complete_call [ObjectStore σ] (h : c.Complete sink old records) (call : Call)
    (hbatch : ∀ record ∈ call.batch, ∃ bytes, sink.codec.encode record = .ok bytes) :
    (c.call sink call).1 = .ok () ∧
      (c.call sink call).2.Complete sink old (records ++ call.encodings sink) := by
  obtain ⟨hstate, deeds, groups, active, hledger, happended, hdeeds⟩ := h
  obtain ⟨hmoves, hrecords⟩ := Call.moves_of_encodable hbatch
  have hall := succeeds_performAll hstate hmoves
  obtain ⟨groups', active', hafter⟩ := ledger_performAll hledger (call.moves sink)
  rw [call_eq]
  refine ⟨hall.outcome_eq, hall.unhindered, _, groups', active', hafter, ?_, fun deed hd => ?_⟩
  · rw [← happended, ← hrecords, ← hall.appended_eq]
    exact List.filterMap_append
  · rcases List.mem_append.mp hd with hd | hd
    · exact hdeeds deed hd
    · exact hall.deeds_unhindered deed hd

theorem buffersLost_foldl (deeds : List Deed) (t : Tally) :
    t.buffersLost ≤ (deeds.foldl Deed.count t).buffersLost := by
  induction deeds generalizing t with
  | nil => exact Nat.le_refl _
  | cons deed rest ih =>
    refine Nat.le_trans ?_ (ih (deed.count t))
    cases deed with
    | refused | unopened | appended => exact Nat.le_refl _
    | abandoned record r =>
      simp only [Deed.count, Tally.abandoned]
      split
      · exact Nat.le_succ _
      · exact Nat.le_refl _
    | uploaded fate r =>
      cases fate with
      | stored | interrupted => exact Nat.le_refl _
      | lost => exact Nat.le_succ _

/-- Totals without a lost buffer are those of uploads that all succeeded. -/
theorem stored_of_none_lost {deeds : List Deed} {t : Tally}
    (hdeeds : ∀ deed ∈ deeds, deed.Unhindered)
    (hlost : (deeds.foldl Deed.count t).buffersLost = 0) :
    ∀ deed ∈ deeds, ∀ r, deed.retired? = some r → deed = .uploaded .stored r := by
  induction deeds generalizing t with
  | nil => exact fun _ hd => (List.not_mem_nil hd).elim
  | cons first rest ih =>
    obtain ⟨hfirst, hrest⟩ := List.forall_mem_cons.mp hdeeds
    intro deed hd r hr
    rcases List.mem_cons.mp hd with rfl | hd
    · cases deed with
      | refused | unopened | appended => cases hr
      | abandoned => exact hfirst.elim
      | uploaded fate r' =>
        cases hr
        cases fate with
        | stored => rfl
        | interrupted => exact absurd rfl hfirst
        | lost =>
          have hle := buffersLost_foldl rest (Deed.count t (.uploaded .lost r))
          have hpos : 0 < (Deed.count t (.uploaded .lost r)).buffersLost := Nat.succ_pos _
          rw [List.foldl_cons] at hlost
          omega
    · exact ih hrest hlost deed hd r hr

/-- No record is refused or dropped. -/
theorem dropped_foldl {deeds : List Deed} (hdeeds : ∀ deed ∈ deeds, deed.Unhindered) (t : Tally) :
    (deeds.foldl Deed.count t).eventsDropped = t.eventsDropped ∧
      (deeds.foldl Deed.count t).encodeFailures = t.encodeFailures := by
  induction deeds generalizing t with
  | nil => exact ⟨rfl, rfl⟩
  | cons deed rest ih =>
    obtain ⟨hdeed, hrest⟩ := List.forall_mem_cons.mp hdeeds
    obtain ⟨hdropped, hfailures⟩ := ih hrest (deed.count t)
    rw [List.foldl_cons, hdropped, hfailures]
    cases deed with
    | refused | unopened | abandoned => exact hdeed.elim
    | appended => exact ⟨rfl, rfl⟩
    | uploaded fate r => cases fate <;> exact ⟨rfl, rfl⟩

end Completing

end Coordinator

/-! ## Objects -/

/-- Of attempts of which one succeeded that one stored the contents. -/
theorem Attempts.stored_eq {name : ObjectName} {contents : Bytes} {puts : List Put}
    (h : Attempts name contents puts) :
    (puts.filter Put.succeeded).filterMap (·.body.content?) =
      List.replicate (puts.countP Put.succeeded) contents := by
  induction puts with
  | nil => rfl
  | cons put rest ih =>
    have hrest := ih ⟨fun p hp => h.name_eq p (List.mem_cons_of_mem _ hp),
      fun p hp => h.content_eq p (List.mem_cons_of_mem _ hp)⟩
    have hput := h.content_eq put List.mem_cons_self
    by_cases hstored : put.succeeded = true
    · rw [List.filter_cons_of_pos hstored, List.filterMap_cons, List.countP_cons_of_pos hstored,
        hrest, List.replicate_succ]
      simp only [hput]
    · rw [List.filter_cons_of_neg hstored, List.countP_cons_of_neg hstored, hrest]

namespace Coordinator

variable {sink : Sink}

theorem stored_of_held {rs : List Retired} {groups : List (List Bytes)}
    (h : List.Forall₂ (Retired.Held sink) rs groups)
    (hone : ∀ r ∈ rs, r.puts.countP Put.succeeded = 1) :
    ((rs.flatMap (·.puts)).filter Put.succeeded).filterMap (·.body.content?) =
      groups.map List.flatten := by
  induction h with
  | nil => rfl
  | cons hr hrest ih =>
    obtain ⟨hfirst, hmore⟩ := List.forall_mem_cons.mp hone
    obtain ⟨name, -, hattempts⟩ := hr.attempts
    rw [List.flatMap_cons, List.filter_append, List.filterMap_append, hattempts.stored_eq, hfirst,
      ih hmore, List.map_cons]
    rfl

/-- Where no buffer is active and none was lost, the objects are all that was appended. -/
theorem stored_of_complete {world : World σ} {records : List Bytes} {c : Coordinator σ}
    (h : c.Complete sink world.puts.reverse records) (hgone : c.current = none)
    (hlost : c.tally.buffersLost = 0) :
    (world.stored c.world).flatten = (records.map Bytes.terminated).flatten ∧
      c.tally.eventsDropped = 0 ∧ c.tally.encodeFailures = 0 := by
  obtain ⟨-, deeds, groups, active, hledger, happended, hdeeds⟩ := h
  have htally := hledger.tally_eq
  rw [htally] at hlost
  have hstored := stored_of_none_lost hdeeds hlost
  have hone : ∀ r ∈ retirements deeds, r.puts.countP Put.succeeded = 1 := by
    intro r hr
    obtain ⟨deed, hd, hretired⟩ := List.mem_filterMap.mp hr
    have hconsistent := hledger.consistent deed hd
    rw [hstored deed hd r hretired] at hconsistent
    exact hconsistent.2.1
  constructor
  · have hall := hledger.appended_eq
    rw [hledger.holds.of_none hgone, List.append_nil, happended] at hall
    unfold World.stored
    rw [hledger.putsUntil_eq, stored_of_held hledger.retired hone, hall, List.flatten_flatten]
  · rw [htally]
    exact dropped_foldl hdeeds {}

end Coordinator

end RecordArchive
