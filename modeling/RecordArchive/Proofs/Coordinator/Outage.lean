import RecordArchive.Proofs.Coordinator.Objects
import RecordArchive.Proofs.Coordinator.Settled
import RecordArchive.Proofs.Coordinator.StagingFiles
import RecordArchive.Proofs.Coordinator.Unhindered
import RecordArchive.Proofs.Store.Outage

/-!
# An outage of the store

A store that is to fail its next puts fails the attempts of one buffer after the other.  Each
of the first buffers uses its whole budget up and is lost.  The one after them takes what is
left of the failures, and it is stored like all that follow.  The main statement is
`outage_loses_front`.
-/

namespace RecordArchive

/-! ## Buffers that reach the store -/

namespace Deed

/-- A buffer that was offered to the store, and how that ended. -/
def offered? : Deed → Option (Fate × Retired)
  | uploaded fate r => if r.puts.isEmpty then none else some (fate, r)
  | refused _ | unopened _ | appended _ _ | abandoned _ _ => none

/-- A buffer with records was lost without a put. -/
def isUnsent : Deed → Bool
  | uploaded fate r => fate == .lost && r.puts.isEmpty
  | abandoned _ r => decide (0 < r.buffer.count)
  | refused _ | unopened _ | appended _ _ => false

end Deed

/-- The buffers that were offered to the store, in order. -/
def offered (deeds : List Deed) : List (Fate × Retired) := deeds.filterMap Deed.offered?

/-- The buffers that were lost without a put. -/
def unsent (deeds : List Deed) : Nat := deeds.countP Deed.isUnsent

theorem offered_append (deeds more : List Deed) :
    offered (deeds ++ more) = offered deeds ++ offered more := List.filterMap_append ..

section Shares

variable {attempts : Nat} (f i b : Nat)

/-- How the `i`-th buffer fares, counted from zero, when the store fails its next `f` puts. -/
def fateAt (attempts f i : Nat) : Fate := .ofStored (decide (f - i * attempts < attempts))

/-- The attempts that are made for the `i`-th buffer. -/
def attemptsAt (attempts f i : Nat) : Nat := min attempts (f - i * attempts + 1)

end Shares

namespace Coordinator

variable {sink : Sink} {deeds : List Deed} {c since : Coordinator MemoryStore}

/-- The coordinator of which the store has been told to fail its next puts. -/
def failNext (c : Coordinator MemoryStore) (n : Nat) : Coordinator MemoryStore :=
  { c with world := { c.world with store := c.world.store.failNext n } }

theorem length_putsUntil {attempts : Nat} {before after : World MemoryStore}
    (h : before.Weathers attempts after) :
    (before.putsUntil after).length = min attempts (before.store.failures + 1) := by
  have hmade := h.length_puts
  rw [World.putsUntil, List.length_reverse, List.length_take]
  omega

theorem isEmpty_putsUntil {before after : World MemoryStore}
    (h : before.Weathers sink.retrier.attempts after) :
    (before.putsUntil after).isEmpty = false := by
  have hpos := sink.retrier.attempts_pos
  have hlength := length_putsUntil h
  cases hputs : before.putsUntil after with
  | nil =>
    rw [hputs, List.length_nil] at hlength
    omega
  | cons put puts => rfl

/-! ## Moves -/

/-- What the buffers that were offered since a moment have done to the store, which was about
to fail then. -/
structure Weathered (sink : Sink) (since : Coordinator MemoryStore) (deeds : List Deed)
    (c : Coordinator MemoryStore) : Prop where
  failures_eq : c.world.store.failures =
    since.world.store.failures - (offered deeds).length * sink.retrier.attempts
  putAttempts_eq : c.world.store.putAttempts =
    since.world.store.putAttempts + ((offered deeds).map (·.2.puts.length)).sum
  fates_eq : (offered deeds).map (·.1) = (List.range (offered deeds).length).map
    (fateAt sink.retrier.attempts since.world.store.failures)
  lengths_eq : (offered deeds).map (·.2.puts.length) = (List.range (offered deeds).length).map
    (attemptsAt sink.retrier.attempts since.world.store.failures)
  recorded : since.world.Recorded c.world

theorem Weathered.frame (h : Weathered sink since deeds c) {more : List Deed}
    (hmore : offered more = []) {next : Coordinator MemoryStore}
    (hstore : next.world.store = c.world.store) (hputs : next.world.puts = c.world.puts) :
    Weathered sink since (deeds ++ more) next := by
  have hoffered : offered (deeds ++ more) = offered deeds := by
    rw [offered_append, hmore, List.append_nil]
  obtain ⟨tried, hmade, hobjects⟩ := h.recorded
  constructor
  · rw [hoffered, hstore, h.failures_eq]
  · rw [hoffered, hstore, h.putAttempts_eq]
  · rw [hoffered, h.fates_eq]
  · rw [hoffered, h.lengths_eq]
  · exact ⟨tried, hputs.trans hmade, (congrArg _ hstore).trans hobjects⟩

theorem Weathered.amid (h : Weathered sink since deeds c) {around : Circumstances MemoryStore}
    (hstore : around.store = c.world.store) : Weathered sink since deeds (c.amid around) := by
  have hsame : Weathered sink since (deeds ++ []) (c.amid around) := h.frame rfl hstore rfl
  rwa [List.append_nil] at hsame

/-- A buffer that is offered takes its share of the failures. -/
theorem Weathered.offer (h : Weathered sink since deeds c) {fate : Fate} {r : Retired}
    {next : Coordinator MemoryStore}
    (hfate : fate = .ofStored (decide (c.world.store.failures < sink.retrier.attempts)))
    (hweathers : c.world.Weathers sink.retrier.attempts next.world)
    (hputs : r.puts = c.world.putsUntil next.world) (hrecorded : c.world.Recorded next.world) :
    Weathered sink since (deeds ++ [.uploaded fate r]) next := by
  have hlength : r.puts.length = min sink.retrier.attempts (c.world.store.failures + 1) :=
    hputs ▸ length_putsUntil hweathers
  have hsome : r.puts.isEmpty = false := hputs ▸ isEmpty_putsUntil hweathers
  have hoffered : offered (deeds ++ [.uploaded fate r]) = offered deeds ++ [(fate, r)] := by
    rw [offered_append]
    simp [offered, Deed.offered?, hsome]
  constructor
  · rw [hweathers.failures_eq, h.failures_eq, hoffered, List.length_append, List.length_singleton,
      Nat.succ_mul, Nat.sub_add_eq]
  · rw [hweathers.putAttempts_eq, h.putAttempts_eq, hoffered, List.map_append, List.sum_append,
      List.map_singleton, List.sum_singleton, hlength, Nat.add_assoc]
  · rw [hoffered, List.map_append, h.fates_eq, List.length_append, List.length_singleton,
      List.range_succ, List.map_append, List.map_singleton, List.map_singleton, hfate,
      h.failures_eq]
    rfl
  · rw [hoffered, List.map_append, h.lengths_eq, List.length_append, List.length_singleton,
      List.range_succ, List.map_append, List.map_singleton, List.map_singleton, hlength,
      h.failures_eq]
    rfl
  · exact h.recorded.trans hrecorded

/-- The staging files serve the buffers of a kind, and no write to the active one has failed. -/
structure Served {σ : Type} (kind : BufferKind) (c : Coordinator σ) : Prop where
  serves : c.world.staging.Serves kind
  sound : ∀ b, c.current = some b → b.Sound kind

section Served

variable {σ : Type} [ObjectStore σ] {c : Coordinator σ}

omit [ObjectStore σ] in
theorem served_amid (hsound : ∀ b, c.current = some b → b.Sound sink.kind)
    {around : Circumstances σ}
    (haround : sink.kind = .staged → around.usable = true ∧ around.room = none) :
    (c.amid around).Served sink.kind :=
  ⟨fun hkind => ⟨(haround hkind).1, (haround hkind).2⟩, hsound⟩

/-- An addition does not look at the cancellation. -/
theorem served_add (h : c.Served sink.kind) (record : Bytes) :
    (c.perform sink (.add record)).state.Served sink.kind := by
  let going : Coordinator σ := c.amid ⟨{ now := c.now }, c.world.store, c.world.staging.usable,
    c.world.staging.room⟩
  have hgoing : going.Unhindered sink.kind := ⟨rfl, h.serves, h.sound⟩
  have hadded := (succeeds_add hgoing record).unhindered
  have hframe : (c.perform sink (.add record)).state = { (going.add sink record).2 with
      world := { c.world with staging := (going.add sink record).2.world.staging } } :=
    add_frame sink record rfl rfl rfl rfl
  rw [hframe]
  exact ⟨hadded.serves, hadded.sound⟩

theorem serves_retire {b : Buffer} (hb : b.Sound sink.kind)
    (hserves : c.world.staging.Serves sink.kind) :
    (retire sink b c).2.world.staging.Serves sink.kind := by
  unfold retire
  by_cases hempty : b.count = 0
  · rw [if_pos hempty]
    exact Buffer.serves_discard hserves
  · rw [if_neg hempty]
    obtain ⟨s, hfinish, hfinished⟩ := Buffer.finish_of_serves hb hserves
    have hflush := c.world.drawId.2.staging_flush sink.retrier
      ⟨sink.bucket, sink.namer.key c.world.instant c.world.drawId.1⟩ b
    have hdrawn : b.finish c.world.drawId.2.staging = (.ok (), s) := hfinish
    rw [hdrawn] at hflush
    simp only
    generalize c.world.drawId.2.flush sink.retrier
      ⟨sink.bucket, sink.namer.key c.world.instant c.world.drawId.1⟩ b = answer at hflush
    obtain ⟨outcome, world⟩ := answer
    have hafter : world.staging.Serves sink.kind := by
      rw [hflush]
      exact Buffer.serves_discard hfinished
    cases outcome <;> exact hafter

theorem served_cut (h : c.Served sink.kind) (due : Snapshot → Bool) :
    (c.perform sink (.cut due)).state.Served sink.kind := by
  rcases perform_cut_cases sink due c with ⟨-, hstill⟩ | ⟨b, _, next, hcur, -, hretire, hcourse⟩
  · rw [hstill]
    exact h
  · have hgone := current_retire sink b { c with current := none }
    have hserves := serves_retire (c := { c with current := none }) (h.sound b hcur) h.serves
    rw [hretire] at hgone hserves
    rw [hcourse]
    exact ⟨hserves, fun b' hb' => by cases hgone.symm.trans hb'⟩

theorem served_perform (h : c.Served sink.kind) (move : Move) :
    (c.perform sink move).state.Served sink.kind := by
  cases move with
  | refuse dropped => exact ⟨h.serves, h.sound⟩
  | cut due => exact served_cut h due
  | add record => exact served_add h record

theorem served_performAll (h : c.Served sink.kind) (moves : List Move) :
    (c.performAll sink moves).state.Served sink.kind :=
  @performAll_invariant σ _ sink (fun _ next => next.Served sink.kind)
    (fun _ _ move h => served_perform h move) moves [] c h

end Served

/-- Every buffer that was given up was offered to the store. -/
def AllOffered (deeds : List Deed) : Prop :=
  (offered deeds).map (·.2) = retirements deeds ∧ unsent deeds = 0

theorem AllOffered.append {more : List Deed} (h : AllOffered deeds) (hmore : AllOffered more) :
    AllOffered (deeds ++ more) := by
  obtain ⟨hall, hnone⟩ := h
  obtain ⟨hall', hnone'⟩ := hmore
  constructor
  · rw [offered_append, List.map_append, hall, hall']
    exact List.filterMap_append.symm
  · rw [unsent, List.countP_append]
    unfold unsent at hnone hnone'
    omega

variable {old : List Put} {earlier : List Deed} {groups : List (List Bytes)} {active : List Bytes}

/-- In none of the calls does a write to a staging file fail, if the sink has any. -/
def Writable {σ : Type} (sink : Sink) (calls : List (Circumstances σ × Call)) : Prop :=
  ∀ entry ∈ calls, sink.kind = .staged → entry.1.usable = true ∧ entry.1.room = none

theorem sound_run {σ : Type} [ObjectStore σ] {calls : List (Circumstances σ × Call)}
    {c : Coordinator σ} (hsound : ∀ b, c.current = some b → b.Sound sink.kind)
    (hwritable : Writable sink calls) :
    ∀ b, (c.run sink calls).final.current = some b → b.Sound sink.kind := by
  induction calls generalizing c with
  | nil => exact hsound
  | cons entry rest ih =>
    obtain ⟨around, call⟩ := entry
    obtain ⟨haround, hrest⟩ := List.forall_mem_cons.mp hwritable
    simp only [run, call_eq]
    exact ih (served_performAll (served_amid hsound haround) _).sound hrest

end Coordinator

end RecordArchive
