import RecordArchive.Proofs.Coordinator.Counting
import RecordArchive.Proofs.Sample

/-!
# The totals of a sink balance

Every event that was accepted is in the active buffer, or was flushed, or was lost,
or went with a buffer whose upload was interrupted; the totals know the first three
of these only.  A call fails exactly when it interrupts an upload.  The main
statements are `tally_balanced`, for runs in which no call fails, and
`balanced_iff_uninterrupted`, for all runs: the totals balance as long as no call
has failed and never again once one has.
-/

namespace RecordArchive

namespace Coordinator

variable {σ : Type} [ObjectStore σ] {sink : Sink} {old : List Put} {deeds : List Deed}
  {c : Coordinator σ} {groups : List (List Bytes)} {active : List Bytes}

/-! ## Calls that fail -/

/-- How moves fail: the upload of a buffer with events is interrupted, and that is
the last thing that is done. -/
structure Interruption (course : Course σ) (key : String) (earlier : List Deed) (r : Retired) :
    Prop where
  outcome_eq : course.outcome = .error (.cancelled key)
  deeds_eq : course.deeds = earlier ++ [.uploaded .interrupted r]
  earlier_eq : interrupted earlier = []
  count_pos : 0 < r.buffer.count
  gone : course.state.current = none

theorem perform_cases (sink : Sink) (h : c.Holds active) (move : Move) :
    (c.perform sink move).outcome = .ok () ∧ interrupted (c.perform sink move).deeds = [] ∨
      ∃ key r, Interruption (c.perform sink move) key [] r := by
  cases move with
  | refuse dropped => exact Or.inl ⟨rfl, rfl⟩
  | cut due =>
    rcases cut_cases sink due h with ⟨-, hstill⟩ | ⟨fate, r, key, -, hcut⟩
    · rw [hstill]
      exact Or.inl ⟨rfl, rfl⟩
    · have hout := hcut.outcome_eq
      have hdeeds := hcut.deeds_eq
      cases fate with
      | interrupted => exact Or.inr ⟨key, r, hout, hdeeds, rfl, hcut.count_pos, hcut.gone⟩
      | stored | lost =>
        refine Or.inl ⟨hout, ?_⟩
        rw [hdeeds]
        rfl
  | add record =>
    obtain ⟨deed, next, hcourse, -, -, hdeed⟩ := add_cases sink record h
    rw [hcourse]
    rcases hdeed with ⟨rfl, -⟩ | ⟨b, b', rfl, -⟩ | ⟨r, rfl, -⟩ <;> exact Or.inl ⟨rfl, rfl⟩

/-- Moves succeed unless an upload is interrupted, which is then the last thing that
they do. -/
theorem performAmid_cases (h : Ledger sink old deeds c groups active)
    (around : Nat → Option (Circumstances σ)) (moves : List Move) :
    (c.performAmid sink around moves).outcome = .ok () ∧
        interrupted (c.performAmid sink around moves).deeds = [] ∨
      ∃ key earlier r, Interruption (c.performAmid sink around moves) key earlier r := by
  -- The ledger is carried along for its clause `holds`: an active buffer has records.
  induction moves generalizing around deeds c groups active with
  | nil => exact Or.inl ⟨rfl, rfl⟩
  | cons move rest ih =>
    have hfound := ledger_amid? h (around 0)
    simp only [performAmid]
    rcases perform_cases sink hfound.holds move with ⟨hout, hnone⟩ | ⟨key, r, hfirst⟩
    · obtain ⟨groups', active', h'⟩ := ledger_perform hfound move
      simp only [hout, interrupted_append, hnone, List.nil_append]
      rcases ih h' (fun n => around (n + 1)) with hrest | ⟨key, earlier, r, hrest⟩
      · exact Or.inl hrest
      · refine Or.inr ⟨key, ((c.amid? (around 0)).perform sink move).deeds ++ earlier, r,
          hrest.outcome_eq, ?_, ?_, hrest.count_pos, hrest.gone⟩
        · rw [hrest.deeds_eq, List.append_assoc]
        · rw [interrupted_append, hnone, hrest.earlier_eq, List.append_nil]
    · simp only [hfirst.outcome_eq]
      exact Or.inr ⟨key, [], r, rfl, hfirst.deeds_eq, rfl, hfirst.count_pos, hfirst.gone⟩

theorem performAll_cases (h : Ledger sink old deeds c groups active) (moves : List Move) :
    (c.performAll sink moves).outcome = .ok () ∧
        interrupted (c.performAll sink moves).deeds = [] ∨
      ∃ key earlier r, Interruption (c.performAll sink moves) key earlier r := by
  rw [← performAmid_none]
  exact performAmid_cases h (fun _ => none) moves

theorem tally_performAll (h : Ledger sink old deeds c groups active) (moves : List Move) :
    (c.performAll sink moves).state.tally =
      (c.performAll sink moves).deeds.foldl Deed.count c.tally := by
  obtain ⟨_, _, hafter⟩ := ledger_performAll h moves
  rw [hafter.tally_eq, List.foldl_append, h.tally_eq]

/-- Uploads are interrupted exactly by the calls that fail. -/
theorem interrupted_runAmid (h : Ledger sink old deeds c groups active)
    (calls : List ((Nat → Option (Circumstances σ)) × Call)) :
    interrupted (c.runAmid sink calls).deeds = [] ↔
      ∀ outcome ∈ (c.runAmid sink calls).outcomes, outcome = .ok () := by
  induction calls generalizing deeds c groups active with
  | nil => exact ⟨fun _ outcome ho => absurd ho List.not_mem_nil, fun _ => rfl⟩
  | cons entry rest ih =>
    obtain ⟨around, call⟩ := entry
    have hbegun := ledger_amid? h (around 0)
    obtain ⟨_, _, hafter⟩ := ledger_performAmid hbegun (fun n => around (n + 1)) (call.moves sink)
    simp only [runAmid, interrupted_append, List.append_eq_nil_iff, List.forall_mem_cons]
    rw [ih hafter]
    refine and_congr_left fun _ => ?_
    rcases performAmid_cases hbegun (fun n => around (n + 1)) (call.moves sink) with
      ⟨hout, hnone⟩ | ⟨key, earlier, r, hfail⟩
    · exact ⟨fun _ => hout, fun _ => hnone⟩
    · rw [hfail.outcome_eq, hfail.deeds_eq, interrupted_append]
      simp [interrupted, Deed.interrupted?]

theorem interrupted_run (sink : Sink) (world : World σ) (calls : List (Circumstances σ × Call)) :
    interrupted ((start world).run sink calls).deeds = [] ↔
      ∀ outcome ∈ ((start world).run sink calls).outcomes, outcome = .ok () := by
  rw [← runAmid_settled]
  exact interrupted_runAmid (ledger_start sink world) (settled calls)

/-! ## Runs in which no call fails -/

/-- As long as no call fails, whatever surrounds its moves, the totals account for every
record and for every put, and the last records that were appended are those of the active
buffer.  Whatever batch comes next, its summary tells what is counted for it. -/
theorem tally_balanced (sink : Sink) (world : World σ)
    (calls : List ((Nat → Option (Circumstances σ)) × Call))
    (h : ∀ outcome ∈ ((start world).runAmid sink calls).outcomes, outcome = .ok ()) :
    let history := (start world).runAmid sink calls
    let tally := history.final.tally
    let puts := world.putsUntil history.final.world
    tally.eventsAccepted =
      tally.eventsFlushed + tally.eventsLost + history.final.activeCount ∧
    tally.eventsAccepted + tally.eventsDropped =
      (calls.flatMap fun entry => entry.2.batch).length ∧
    tally.buffersFlushed = puts.countP Put.succeeded ∧
    tally.bytesFlushed = storedBytes puts ∧
    (∀ b, history.final.current = some b → 0 < b.count ∧
      ∃ records, records <:+ (appended history.deeds).map Bytes.terminated ∧
        b.Holds history.final.world.staging records) ∧
    (tally.buffersLost = 0 ↔ tally.eventsLost = 0) ∧
    ∀ around batch told after,
      (history.final.amid around).accept sink batch = (.ok told, after) →
        told.appended + told.dropped = batch.length ∧
        after.tally.eventsAccepted = tally.eventsAccepted + told.appended ∧
        after.tally.eventsDropped = tally.eventsDropped + told.dropped ∧
        after.tally.encodeFailures = tally.encodeFailures + told.encodeFailures := by
  intro history tally puts
  obtain ⟨groups, active, hledger⟩ := ledger_runAmid sink world calls
  have hnone : interrupted history.deeds = [] :=
    (interrupted_runAmid (ledger_start sink world) calls).mpr h
  have htaken := taken_runAmid sink calls (start world) h
  have hputs : puts = (retirements history.deeds).flatMap (·.puts) := hledger.putsUntil_eq
  have hflushed := flushed_foldl hledger.consistent {}
  have hlost := lost_foldl hledger.consistent (t := {}) Iff.rfl
  rw [← hledger.tally_eq] at hflushed hlost
  refine ⟨?_, ?_, ?_, ?_, ?_, hlost, ?_⟩
  · have hall := eventsAccepted_eq hledger
    rw [hnone] at hall
    exact hall
  · exact htaken.trans (Nat.zero_add _)
  · rw [hputs]
    simpa using hflushed.1
  · rw [hputs]
    simpa using hflushed.2
  · intro b hb
    obtain ⟨hne, hholds⟩ := hledger.holds.of_some hb
    refine ⟨?_, active, ?_, hholds⟩
    · rw [hholds.count_eq]
      exact List.length_pos_iff.mpr hne
    · rw [hledger.appended_eq]
      exact List.suffix_append _ _
  · intro around batch told after haccept
    have hagrees : Summary.Agrees batch.length {} told tally
        (acceptFrom sink {} batch (history.final.amid around)).2.tally :=
      agrees_acceptFrom sink batch (history.final.amid around) (congrArg Prod.fst haccept)
    have hafter : (acceptFrom sink {} batch (history.final.amid around)).2 = after :=
      congrArg Prod.snd haccept
    rw [hafter] at hagrees
    obtain ⟨hbatch, haccepted, hdropped, hfailures⟩ := hagrees
    simpa [amid] using And.intro hbatch (And.intro haccepted (And.intro hdropped hfailures))

/-- Of three records one is flushed, one is lost, and one is in the active buffer. -/
theorem tally_balanced_sample :
    let calls : List ((Nat → Option (Circumstances MemoryStore)) × Call) :=
      [(throughout Sample.calm, .accept [Sample.record "a", .null, Sample.record "b"]),
        (throughout Sample.failing, .accept [Sample.record "c"])]
    let history := (start Sample.world).runAmid Sample.sink calls
    (∀ outcome ∈ history.outcomes, outcome = .ok ()) ∧
      history.final.tally.eventsAccepted = 3 ∧
      history.final.tally.eventsFlushed + history.final.tally.eventsLost +
        history.final.activeCount = 3 := by
  intro calls history
  have h : ∀ outcome ∈ history.outcomes, outcome = .ok () := by
    have houtcomes : history.outcomes = [.ok (), .ok ()] := rfl
    simp [houtcomes]
  have haccepted : history.final.tally.eventsAccepted = 3 := rfl
  have hbalance := (tally_balanced Sample.sink Sample.world calls h).1
  exact ⟨h, haccepted, hbalance.symm.trans haccepted⟩

/-! ## Runs in which calls fail -/

/-- The events that the totals do not account for are those of interrupted uploads,
so the totals balance exactly as long as no call has failed.  A call that fails was
cancelled while it uploaded a buffer with events; that buffer is gone, and the totals
count what was done before it and nothing for it. -/
theorem balanced_iff_uninterrupted (sink : Sink) (world : World σ)
    (calls : List (Circumstances σ × Call)) :
    let history := (start world).run sink calls
    let tally := history.final.tally
    tally.eventsAccepted = tally.eventsFlushed + tally.eventsLost + history.final.activeCount +
      eventsOf (interrupted history.deeds) ∧
    (tally.eventsAccepted =
        tally.eventsFlushed + tally.eventsLost + history.final.activeCount ↔
      ∀ outcome ∈ history.outcomes, outcome = .ok ()) ∧
    ∀ around call e next, (history.final.amid around).call sink call = (.error e, next) →
      ∃ key earlier r, e = .cancelled key ∧ 0 < r.buffer.count ∧
        ((history.final.amid around).performAll sink (call.moves sink)).deeds =
          earlier ++ [.uploaded .interrupted r] ∧
        next.tally = earlier.foldl Deed.count tally ∧ next.current = none := by
  intro history tally
  obtain ⟨groups, active, hledger⟩ := ledger_run sink world calls
  have hall : tally.eventsAccepted = tally.eventsFlushed + tally.eventsLost +
      history.final.activeCount + eventsOf (interrupted history.deeds) := eventsAccepted_eq hledger
  refine ⟨hall, ?_, ?_⟩
  · rw [← interrupted_run sink world calls,
      ← eventsOf_interrupted_eq_zero_iff hledger.consistent]
    show tally.eventsAccepted = _ ↔ eventsOf (interrupted history.deeds) = 0
    omega
  · intro around call e next hcall
    have hamid := ledger_amid hledger around
    rw [call_eq, Prod.mk.injEq] at hcall
    obtain ⟨hout, hnext⟩ := hcall
    rcases performAll_cases hamid (call.moves sink) with ⟨hok, -⟩ | ⟨key, earlier, r, hfail⟩
    · rw [hok] at hout
      cases hout
    · have htally := tally_performAll hamid (call.moves sink)
      rw [hfail.deeds_eq, List.foldl_append, hnext] at htally
      have herror := hfail.outcome_eq
      rw [hout] at herror
      cases herror
      exact ⟨key, earlier, r, rfl, hfail.count_pos, hfail.deeds_eq, htally, hnext ▸ hfail.gone⟩

/-- A record is accepted, and the sink is shut down when the run has been cancelled.
The record is nowhere after that. -/
theorem cancelled_shutdown_unaccounted :
    let before := (start Sample.world).run Sample.sink
      [(Sample.calm, .accept [Sample.record "a"])]
    let after := (before.final.amid Sample.cancelled).call Sample.sink .shutdown
    (∃ key, after.1 = .error (.cancelled key)) ∧ after.2.current = none ∧
      after.2.tally = before.final.tally ∧ after.2.tally.eventsAccepted = 1 ∧
      after.2.tally.eventsFlushed = 0 ∧ after.2.tally.eventsLost = 0 ∧
      after.2.tally.buffersLost = 0 :=
  ⟨⟨_, rfl⟩, rfl, rfl, rfl, rfl, rfl, rfl⟩

end Coordinator

end RecordArchive
