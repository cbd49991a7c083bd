import RecordArchive.Proofs.Coordinator.Balance
import RecordArchive.Proofs.Pipeline.Step

/-!
# The calls of a pipeline

An action of a pipeline either makes one call to the coordinator, or does nothing to it
but change its clock.  `Effect` says which, and `effect_of_step` is what invariants of the
coordinator are carried along with.  One of them is that its ledger is kept, and that no
upload has been interrupted unless the sink's worker has failed: `booked_step`.
-/

namespace RecordArchive

variable {σ : Type}

def Outlet.hasFailed : Outlet → Bool
  | ended (.error _) => true
  | ended (.ok _) | waiting | gathering _ | holding _ => false

namespace Coordinator

def atClock (c : Coordinator σ) (clock : Clock) : Coordinator σ :=
  { c with world := { c.world with clock := clock } }

theorem atClock_eq_amid (c : Coordinator σ) (clock : Clock) :
    c.atClock clock =
      c.amid ⟨clock, c.world.store, c.world.staging.usable, c.world.staging.room⟩ := rfl

end Coordinator

namespace Pipeline

theorem hasFailed_afterCall {α : Type} (p : Pipeline σ) {next : Outlet}
    (hnext : next.hasFailed = false) (fault : ArchiveError → RunFault)
    (result : Except ArchiveError α × Coordinator σ) :
    (p.afterCall next fault result).outlet.hasFailed = false ↔
      (result.1.map fun _ => ()) = .ok () := by
  unfold afterCall
  cases result.1 with
  | ok a => exact ⟨fun _ => rfl, fun _ => hnext⟩
  | error e => exact ⟨nofun, nofun⟩

variable [ObjectStore σ]

/-- What an action does to the coordinator, and what it hands over with a call. -/
inductive Effect (settings : PipelineSettings) (p q : Pipeline σ) (action : Action) : Prop
  | apart (clock : Clock) (hcoordinator : q.coordinator = p.coordinator.atClock clock)
    (hcancel : (∀ d, action ≠ .abort d) → clock.cancelAt = p.coordinator.world.clock.cancelAt)
    (hhanded : p.handed action = []) (houtlet : q.outlet.hasFailed = p.outlet.hasFailed)
  | call (call : Call) (hbatch : (p.handed action).flatten = call.batch)
    (hcoordinator : q.coordinator = (p.coordinator.call settings.sink call).2)
    (hbefore : p.outlet.hasFailed = false)
    (hafter : q.outlet.hasFailed = false ↔ (p.coordinator.call settings.sink call).1 = .ok ())

theorem effect_of_step {settings : PipelineSettings} {p q : Pipeline σ} {action : Action}
    (hstep : Step settings p action q) : Effect settings p q action := by
  cases hstep with
  | pull | check | write | expire | refuse | stop | close =>
    exact .apart p.coordinator.world.clock rfl (fun _ => rfl) rfl rfl
  | take hout | gather hout | hold hout =>
    refine .apart p.coordinator.world.clock rfl (fun _ => rfl) rfl ?_
    rw [hout]
    rfl
  | accept hout =>
    rename_i batch
    refine .call (.accept batch) ?_ rfl (hout ▸ rfl) (hasFailed_afterCall p rfl _ _)
    simp only [handed, hout]
    exact List.append_nil batch
  | tick hout => exact .call .flushExpired rfl rfl (hout ▸ rfl) (hasFailed_afterCall p rfl _ _)
  | finish hout => exact .call .shutdown rfl rfl (hout ▸ rfl) (hasFailed_afterCall p rfl _ _)
  | pass d => exact .apart (p.coordinator.world.clock.advance d) rfl (fun _ => rfl) rfl rfl
  | abort d =>
    exact .apart (p.coordinator.world.clock.cancelAfter d) rfl (fun h => absurd rfl (h d)) rfl rfl

/-- The coordinator's ledger is kept, and as long as the sink's worker has not failed no
upload has been interrupted. -/
def Booked (sink : Sink) (old : List Put) (p : Pipeline σ) : Prop :=
  ∃ deeds groups active, Coordinator.Ledger sink old deeds p.coordinator groups active ∧
    (p.outlet.hasFailed = false → interrupted deeds = [])

omit [ObjectStore σ] in
theorem booked_start (sink : Sink) (source : Source) (queueCapacity : Nat) (world : World σ) :
    (start source queueCapacity (.start world)).Booked sink world.puts.reverse :=
  ⟨[], [], [], Coordinator.ledger_start sink world, fun _ => rfl⟩

theorem booked_step {settings : PipelineSettings} {old : List Put} {p q : Pipeline σ}
    {action : Action} (h : p.Booked settings.sink old) (hstep : Step settings p action q) :
    q.Booked settings.sink old := by
  obtain ⟨deeds, groups, active, hledger, hnone⟩ := h
  cases effect_of_step hstep with
  | apart clock hcoordinator hcancel hhanded houtlet =>
    rw [Booked, hcoordinator, houtlet, Coordinator.atClock_eq_amid]
    exact ⟨deeds, groups, active, Coordinator.ledger_amid hledger _, hnone⟩
  | call call hbatch hcoordinator hbefore hgood =>
    obtain ⟨groups', active', hafter⟩ :=
      Coordinator.ledger_performAll hledger (call.moves settings.sink)
    rw [Coordinator.call_eq] at hcoordinator hgood
    rw [Booked, hcoordinator]
    refine ⟨_, groups', active', hafter, fun hopen => ?_⟩
    rcases Coordinator.performAll_cases hledger (call.moves settings.sink) with
      ⟨-, hfree⟩ | ⟨key, earlier, r, hfail⟩
    · rw [interrupted_append, hnone hbefore, hfree]
      rfl
    · have hok := hgood.mp hopen
      simp only at hok
      rw [hfail.outcome_eq] at hok
      cases hok

end Pipeline

end RecordArchive
