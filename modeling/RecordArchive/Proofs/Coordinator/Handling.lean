import Mathlib.Data.List.Induction
import RecordArchive.Proofs.Coordinator.Contents
import RecordArchive.Proofs.Coordinator.Stages

/-!
# The records of a call, stage by stage

A call comes to the records of its batch one after the other, and each that can be encoded
is appended, or finds no buffer, or spoils the one that it finds.  The main statement is
`handlings_cases`: whatever happens on the way, the records that a call has handled and
those that lie ahead are the ones that it had to handle, unless it has failed.
-/

namespace RecordArchive

/-- What became of a record that could be encoded. -/
inductive Handling
  /-- It was appended, which gave this buffer. -/
  | appended (record : Bytes) (buffer : Buffer)
  /-- There was no active buffer, and none could be made. -/
  | unopened (record : Bytes) (error : ArchiveError)
  /-- It could not be appended. -/
  | torn (record : Bytes) (error : ArchiveError)

namespace Handling

def record : Handling → Bytes
  | appended record _ | unopened record _ | torn record _ => record

def isAppended : Handling → Bool
  | appended _ _ => true
  | unopened _ _ | torn _ _ => false

end Handling

/-- The records of a batch that are reached and can be encoded. -/
def Sink.reached (sink : Sink) (records : List Record) : List Bytes :=
  (sink.moves records).filterMap Move.record?

/-- The records that a call may still have to handle. -/
def Stage.ahead (sink : Sink) : Stage → List Bytes
  | reading _ rest => sink.reached rest
  | checking purpose | closing purpose _ _ | offering purpose _ | resting purpose _ =>
    match purpose with
    | .append _ record rest => record :: sink.reached rest
    | .expire | .finish => []
  | taking _ record rest | appending _ record rest _ => record :: sink.reached rest
  | ended _ => []

namespace Underway

variable {σ : Type}

/-- What becomes of a record in the next stage. -/
def handling (sink : Sink) (u : Underway σ) : List Handling :=
  match u.stage with
  | .taking _ record _ =>
    match (u.state.takeBuffer sink).1 with
    | .error e => [.unopened record e]
    | .ok _ => []
  | .appending _ record _ b =>
    match (b.append record u.state.world.staging).1 with
    | .error e => [.torn record e]
    | .ok b => [.appended record b]
  | _ => []

/-- What becomes of records on the way. -/
def handlings [ObjectStore σ] (sink : Sink) : Underway σ → List (Beat σ) → List Handling
  | _, [] => []
  | u, .proceed :: rest => u.handling sink ++ (u.resume sink).handlings sink rest
  | u, .change around :: rest => { u with state := u.state.amid around }.handlings sink rest

variable {sink : Sink}

theorem reached_cons_error {record : Record} {fault : EncodeFault} (rest : List Record)
    (h : sink.codec.encode record = .error fault) :
    sink.reached (record :: rest) = match sink.policy with
      | .abort => []
      | .skip => sink.reached rest := by
  simp only [Sink.reached, Sink.moves, h]
  cases sink.policy <;> rfl

theorem reached_cons_ok {record : Record} {bytes : Bytes} (rest : List Record)
    (h : sink.codec.encode record = .ok bytes) :
    sink.reached (record :: rest) = bytes :: sink.reached rest := by
  simp only [Sink.reached, Sink.moves, h]
  rfl

theorem ahead_next (purpose : Purpose) (flushed : Bool) (totals : Tally) :
    (purpose.next flushed totals).ahead sink = (Stage.checking purpose).ahead sink := by
  cases purpose <;> rfl

theorem ahead_check (purpose : Purpose) (c : Coordinator σ) :
    (check sink purpose c).stage.ahead sink = (Stage.checking purpose).ahead sink := by
  unfold check
  cases c.current with
  | none => exact ahead_next purpose false _
  | some b =>
    simp only
    split
    · split
      · exact ahead_next purpose true _
      · rfl
    · exact ahead_next purpose false _

theorem ahead_close (purpose : Purpose) (b : Buffer) (name : ObjectName) (c : Coordinator σ) :
    (close sink purpose b name c).stage.ahead sink = (Stage.checking purpose).ahead sink := by
  unfold close
  cases b.finish c.world.staging with
  | mk finished staging =>
    cases finished with
    | error e => exact ahead_next purpose true _
    | ok u => rfl

theorem ahead_read (summary : Summary) (records : List Record) (c : Coordinator σ) :
    (read sink summary c records).stage.ahead sink = sink.reached records := by
  cases records with
  | nil => rfl
  | cons record rest =>
    simp only [read]
    cases hcode : sink.codec.encode record with
    | error fault =>
      rw [reached_cons_error rest hcode]
      cases sink.policy <;> rfl
    | ok bytes =>
      rw [reached_cons_ok rest hcode]
      rfl

theorem failure_failed (e : ArchiveError) (purpose : Purpose) :
    (Stage.ended (purpose.failed e)).failure? = some e := by
  cases purpose <;> rfl

theorem ahead_attempt [ObjectStore σ] (purpose : Purpose) (s : Shipment) (c : Coordinator σ) :
    (attempt purpose s c).stage.ahead sink = (Stage.checking purpose).ahead sink ∨
      ((attempt purpose s c).stage.failure?).isSome = true := by
  unfold attempt
  simp only
  split
  · exact Or.inr (by rw [cancelled, failure_failed]; rfl)
  · refine Or.inl ?_
    cases (c.world.progress s.made).attemptOnce (World.offer s.name s.body) with
    | mk outcome p =>
      cases outcome with
      | ok u => exact ahead_next purpose true _
      | error e =>
        cases s.spare with
        | zero => exact ahead_next purpose true _
        | succ spare => rfl

theorem ahead_rest (purpose : Purpose) (s : Shipment) (c : Coordinator σ) :
    (rest sink purpose s c).stage.ahead sink = (Stage.checking purpose).ahead sink ∨
      ((rest sink purpose s c).stage.failure?).isSome = true := by
  unfold rest
  cases (c.world.progress s.made).rest sink.retrier c.world.chance.fractions with
  | mk cut p =>
    cases cut with
    | true => exact Or.inr (by simp only [cancelled, failure_failed]; rfl)
    | false => exact Or.inl rfl

/-- What the next stage handles was ahead, with all that is ahead then, unless the call
fails in that stage. -/
theorem handling_cases [ObjectStore σ] (sink : Sink) (u : Underway σ) :
    (u.handling sink).map Handling.record ++ (u.resume sink).stage.ahead sink =
        u.stage.ahead sink ∨
      u.handling sink = [] ∧ ((u.resume sink).stage.failure?).isSome = true := by
  obtain ⟨stage, c⟩ := u
  cases stage with
  | reading summary records => exact Or.inl (ahead_read summary records c)
  | checking purpose => exact Or.inl (ahead_check purpose c)
  | closing purpose b name => exact Or.inl (ahead_close purpose b name c)
  | offering purpose s => exact (ahead_attempt purpose s c).imp id fun h => ⟨rfl, h⟩
  | resting purpose s => exact (ahead_rest purpose s c).imp id fun h => ⟨rfl, h⟩
  | taking summary record records =>
    refine Or.inl ?_
    simp only [handling, resume, take]
    cases c.takeBuffer sink with
    | mk taken opened => cases taken <;> rfl
  | appending summary record records b =>
    refine Or.inl ?_
    simp only [handling, resume]
    cases (b.append record c.world.staging).1 <;> rfl
  | ended answer => exact Or.inl rfl

/-! ## The way of a call -/

section

variable [ObjectStore σ]

theorem attend_snoc (u : Underway σ) (beats : List (Beat σ)) (beat : Beat σ) :
    u.attend sink (beats ++ [beat]) = (u.attend sink beats).beat sink beat := by
  simp [attend]

theorem handlings_snoc (u : Underway σ) (beats : List (Beat σ)) (beat : Beat σ) :
    u.handlings sink (beats ++ [beat]) =
      u.handlings sink beats ++ (u.attend sink beats).handlings sink [beat] := by
  induction beats generalizing u with
  | nil => rfl
  | cons first rest ih =>
    cases first with
    | proceed =>
      simp only [List.cons_append, handlings, List.append_assoc]
      exact congrArg _ (ih (u.resume sink))
    | change around => exact ih { u with state := u.state.amid around }

theorem resume_of_failed (sink : Sink) {u : Underway σ}
    (h : (u.stage.failure?).isSome = true) :
    u.resume sink = u ∧ u.handling sink = [] := by
  obtain ⟨stage, c⟩ := u
  cases stage with
  | ended answer => exact ⟨rfl, rfl⟩
  | _ => cases h

/-- What a call has handled, and what lies ahead of it, is what it had to handle, unless it
has failed.  Then it has handled a part of that. -/
theorem handlings_cases (sink : Sink) (u : Underway σ) (beats : List (Beat σ)) :
    (u.handlings sink beats).map Handling.record ++ (u.attend sink beats).stage.ahead sink =
        u.stage.ahead sink ∨
      ((u.attend sink beats).stage.failure?).isSome = true ∧
        ((u.handlings sink beats).map Handling.record).Sublist (u.stage.ahead sink) := by
  induction beats using List.reverseRecOn with
  | nil => exact Or.inl rfl
  | append_singleton beats beat ih =>
    rw [attend_snoc, handlings_snoc, List.map_append]
    generalize u.attend sink beats = v at ih ⊢
    cases beat with
    | change around =>
      rw [handlings, handlings, List.map_nil, List.append_nil]
      exact ih
    | proceed =>
      have hone : v.handlings sink [.proceed] = v.handling sink := List.append_nil _
      rw [hone]
      rcases ih with hall | ⟨hfailed, hpart⟩
      · rcases handling_cases sink v with hstep | ⟨hnone, hfails⟩
        · refine Or.inl ?_
          rw [List.append_assoc, ← hall, ← hstep]
          rfl
        · refine Or.inr ⟨hfails, ?_⟩
          rw [hnone, List.map_nil, List.append_nil, ← hall]
          exact List.sublist_append_left _ _
      · obtain ⟨hstill, hnone⟩ := resume_of_failed sink hfailed
        refine Or.inr ⟨?_, ?_⟩
        · rw [beat, hstill]
          exact hfailed
        · rw [hnone, List.map_nil, List.append_nil]
          exact hpart

/-- The records that a call handles are records of its batch, in order. -/
theorem handlings_sublist (call : Call) (c : Coordinator σ) (beats : List (Beat σ)) :
    (((start call c).handlings sink beats).map Handling.record).Sublist
      (call.encodings sink) := by
  have hmoves : (call.enter.ahead sink).Sublist (call.encodings sink) := by
    cases call with
    | accept batch => exact sink.moves_sublist batch
    | flushExpired => exact List.nil_sublist _
    | shutdown => exact List.nil_sublist _
  rcases handlings_cases sink (start call c) beats with hall | ⟨-, hpart⟩
  · exact (hall ▸ List.sublist_append_left _ _).trans hmoves
  · exact hpart.trans hmoves

end

end Underway

end RecordArchive
