import RecordArchive.Proofs.Coordinator.Ledger

/-!
# What a coordinator answers

A coordinator answers calls, and tells what its active buffer and its totals are
when it is asked.  `converse` keeps all that is answered, the summaries and totals
included, where a run keeps only whether the calls failed.  The main statement is
`sizes_of_converse`: the size that is shown of a buffer is the number of bytes that
every put of it offers.
-/

namespace RecordArchive

/-- What a coordinator can be asked. -/
inductive Request
  | call (call : Call)
  | snapshot
  | stats

/-- What a coordinator answers. -/
inductive Answer
  | accepted (outcome : Except ArchiveError Summary)
  | expired (outcome : Except ArchiveError Bool)
  | ended (outcome : Except ArchiveError Tally)
  | snapshot (reading : Option Snapshot)
  | stats (totals : Tally)

/-- What was answered, what was done, and the coordinator after that. -/
structure Dialogue (σ : Type) where
  answers : List Answer
  deeds : List Deed
  final : Coordinator σ

def Request.moves (sink : Sink) : Request → List Move
  | call asked => asked.moves sink
  | snapshot | stats => []

/-- A put offers so many bytes. -/
def Put.HasLength (put : Put) (size : Nat) : Prop :=
  put.body.content?.map List.length = some size

theorem Attempts.hasLength {name : ObjectName} {contents : Bytes} {puts : List Put}
    (h : Attempts name contents puts) : ∀ put ∈ puts, put.HasLength contents.length := by
  intro put hput
  rw [Put.HasLength, h.content_eq put hput]
  rfl

theorem Retired.held_of_mem {sink : Sink} {rs : List Retired} {groups : List (List Bytes)}
    (h : List.Forall₂ (Retired.Held sink) rs groups) {r : Retired} (hr : r ∈ rs) :
    ∃ records, r.Held sink records := by
  induction h with
  | nil => cases hr
  | cons hheld _ ih =>
    cases hr with
    | head => exact ⟨_, hheld⟩
    | tail _ hr => exact ih hr

namespace Coordinator

variable {σ : Type} [ObjectStore σ]

def reply (sink : Sink) (c : Coordinator σ) : Request → Answer × Coordinator σ
  | .call (.accept batch) =>
    let (outcome, next) := c.accept sink batch
    (.accepted outcome, next)
  | .call .flushExpired =>
    let (outcome, next) := c.flushExpired sink
    (.expired outcome, next)
  | .call .shutdown =>
    let (outcome, next) := c.shutdown sink
    (.ended outcome, next)
  | .snapshot => (.snapshot c.snapshot?, c)
  | .stats => (.stats c.tally, c)

/-- Answers requests one after the other, each in its own surroundings. -/
def converse (sink : Sink) : List (Circumstances σ × Request) → Coordinator σ → Dialogue σ
  | [], c => ⟨[], [], c⟩
  | (around, request) :: rest, c =>
    let c := c.amid around
    let (answer, next) := c.reply sink request
    let later := converse sink rest next
    ⟨answer :: later.answers, (c.performAll sink (request.moves sink)).deeds ++ later.deeds,
      later.final⟩

/-- Answering a request is making its moves. -/
theorem reply_eq (sink : Sink) (c : Coordinator σ) (request : Request) :
    (c.reply sink request).2 = (c.performAll sink (request.moves sink)).state := by
  cases request with
  | call call =>
    have hcall : (c.reply sink (.call call)).2 = (c.call sink call).2 := by cases call <;> rfl
    rw [hcall, call_eq]
    rfl
  | snapshot | stats => rfl

theorem converse_invariant {sink : Sink} (Inv : List Deed → Coordinator σ → Prop)
    (step : ∀ deeds c move, Inv deeds c →
      Inv (deeds ++ (c.perform sink move).deeds) (c.perform sink move).state)
    (shift : ∀ deeds c around, Inv deeds c → Inv deeds (c.amid around))
    (requests : List (Circumstances σ × Request)) {deeds : List Deed} {c : Coordinator σ}
    (h : Inv deeds c) :
    Inv (deeds ++ (c.converse sink requests).deeds) (c.converse sink requests).final := by
  induction requests generalizing deeds c with
  | nil => simpa [converse] using h
  | cons entry rest ih =>
    obtain ⟨around, request⟩ := entry
    have hreply := performAll_invariant Inv step (request.moves sink) (shift deeds c around h)
    simp only [converse, reply_eq]
    rw [← List.append_assoc]
    exact ih hreply

theorem ledger_converse (sink : Sink) (world : World σ)
    (requests : List (Circumstances σ × Request)) :
    ∃ groups active, Ledger sink world.puts.reverse ((start world).converse sink requests).deeds
      ((start world).converse sink requests).final groups active := by
  have h := converse_invariant
    (fun deeds c => ∃ groups active, Ledger sink world.puts.reverse deeds c groups active)
    (fun deeds c move ⟨_, _, h⟩ => ledger_perform h move)
    (fun deeds c around ⟨groups, active, h⟩ => ⟨groups, active, ledger_amid h around⟩)
    requests ⟨[], [], ledger_start sink world⟩
  simpa using h

/-- Buffers show the number of bytes that is offered of them: those that were given up,
for which all puts were made, and the active one at its next upload. -/
def SizesOffered (old : List Put) (deeds : List Deed) (c : Coordinator σ) : Prop :=
  c.world.puts.reverse = old ++ (retirements deeds).flatMap (·.puts) ∧
    (∀ r ∈ retirements deeds, ∀ put ∈ r.puts, put.HasLength r.buffer.size) ∧
    ∀ b, c.current = some b → ∀ retrier name, ∃ tried,
      (c.world.flush retrier name b).2.puts = tried ++ c.world.puts ∧
        ∀ put ∈ tried, put.HasLength b.size

theorem sizes_of_converse (sink : Sink) (world : World σ)
    (requests : List (Circumstances σ × Request)) :
    SizesOffered world.puts.reverse ((start world).converse sink requests).deeds
      ((start world).converse sink requests).final := by
  obtain ⟨groups, active, h⟩ := ledger_converse sink world requests
  refine ⟨h.puts_eq, ?_, ?_⟩
  · intro r hr
    obtain ⟨records, hheld⟩ := Retired.held_of_mem h.retired hr
    obtain ⟨name, -, hattempts⟩ := hheld.attempts
    rw [hheld.holds.size_eq]
    exact hattempts.hasLength
  · intro b hcur retrier name
    obtain ⟨-, hb⟩ := h.holds.of_some hcur
    obtain ⟨tried, hputs, hattempts, -⟩ :=
      World.flush_offers (w := ((start world).converse sink requests).final.world) retrier name hb
    rw [hb.size_eq]
    exact ⟨tried, hputs, hattempts.hasLength⟩

end Coordinator

end RecordArchive
