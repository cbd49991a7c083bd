import RecordArchive.Proofs.Pipeline.Step
import RecordArchive.Proofs.Source.Content

/-!
# Pipelines come to their end

`Pipeline.work` measures what is left to do.  Of all that can happen only the passing of
time and a look at the age of the buffer leave it as it is: `work_lt_of_step`.  What
`Pipeline.turn` names can be done and makes it smaller, and it names nothing only when both
workers have ended, so the schedule that is run goes to the end: `exists_result?_run`.
-/

namespace RecordArchive

/-- Whether a batch takes something from a source. -/
def Source.Advances : Source → Prop
  | records _ size => 0 < size
  | lines _ _ | unreadable _ => True

namespace Source

theorem advances_of_start {settings : SourceSettings} {contents? : String → Option Contents}
    {source : Source} (h : start settings contents? = .ok source) : source.Advances := by
  cases started_of_start h with
  | listed found limits => exact Nat.lt_of_lt_of_le Nat.zero_lt_one (Nat.le_max_left _ _)
  | unreadable | unread | file => trivial

/-- A batch has a record, and its records are taken from what is left. -/
theorem left_of_next {s s' : Source} {batch : List Record} (hs : s.Advances)
    (h : s.next = .ok (some batch, s')) :
    0 < batch.length ∧ batch.length + s'.left ≤ s.left ∧ s'.Advances := by
  cases s with
  | unreadable path => cases h
  | records rest size =>
    have hsize : 0 < size := hs
    simp only [next, Except.ok.injEq, Prod.mk.injEq] at h
    obtain ⟨hbatch, rfl⟩ := h
    cases rest with
    | nil => cases hbatch
    | cons record rest =>
      cases hbatch
      refine ⟨?_, ?_, hs⟩
      · rw [List.length_take]
        exact Nat.lt_min.mpr ⟨hsize, Nat.succ_pos _⟩
      · simp only [left, List.length_take, List.length_drop]
        omega
  | lines rest limits =>
    have hlength := length_batchFrom limits 0 0 rest
    simp only [next, Except.ok.injEq, Prod.mk.injEq] at h
    obtain ⟨hbatch, rfl⟩ := h
    by_cases hnil : (batchFrom limits 0 0 rest).1.isEmpty = true
    · simp [hnil] at hbatch
    · simp only [hnil, Bool.false_eq_true, if_false, Option.some.injEq] at hbatch
      subst hbatch
      refine ⟨?_, hlength, trivial⟩
      exact List.length_pos_iff.mpr fun heq => hnil (List.isEmpty_iff.mpr heq)

end Source

/-! ## What is left to do -/

namespace Intake

def isEnded : Intake → Bool
  | ended _ => true
  | reading _ | checking _ _ | writing _ _ _ _ => false

theorem exists_of_isEnded {intake : Intake} (h : intake.isEnded = true) :
    ∃ outcome, intake = .ended outcome := by
  cases intake with
  | reading | checking | writing => cases h
  | ended outcome => exact ⟨outcome, rfl⟩

/-- Of a record that the source has to give, eight: one to pull it, and seven that are used
up by the time at which its batch is accepted. -/
def work : Intake → Nat
  | reading source => 8 * source.left + 1
  | checking rest source => 8 * source.left + 5 * rest.length + 2
  | writing _ rest source _ => 8 * source.left + 5 * rest.length + 6
  | ended _ => 0

def Advances : Intake → Prop
  | reading source | checking _ source | writing _ _ source _ => source.Advances
  | ended _ => True

theorem work_afterPull {source : Source} (h : source.Advances) :
    (Pipeline.afterPull source).work < (reading source).work ∧
      (Pipeline.afterPull source).Advances := by
  unfold Pipeline.afterPull
  cases hnext : source.next with
  | error fault => exact ⟨Nat.succ_pos _, trivial⟩
  | ok answer =>
    obtain ⟨batch?, rest⟩ := answer
    cases batch? with
    | none => exact ⟨Nat.succ_pos _, trivial⟩
    | some batch =>
      obtain ⟨hpos, hlength, hrest⟩ := Source.left_of_next h hnext
      refine ⟨?_, hrest⟩
      show 8 * rest.left + 5 * batch.length + 2 < 8 * source.left + 1
      omega

theorem work_afterCheck {σ : Type} (settings : PipelineSettings) (p : Pipeline σ)
    (rest : List Record) {source : Source} (h : source.Advances) :
    (Pipeline.afterCheck settings p rest source).work < (checking rest source).work ∧
      (Pipeline.afterCheck settings p rest source).Advances := by
  cases rest with
  | nil => exact ⟨Nat.lt_succ_self _, h⟩
  | cons record rest =>
    simp only [Pipeline.afterCheck]
    split
    · exact ⟨Nat.succ_pos _, trivial⟩
    · refine ⟨?_, h⟩
      show 8 * source.left + 5 * rest.length + 6 < 8 * source.left + 5 * (rest.length + 1) + 2
      omega

end Intake

namespace Outlet

def isEnded : Outlet → Bool
  | ended _ => true
  | waiting | gathering _ | holding _ => false

theorem exists_of_isEnded {outlet : Outlet} (h : outlet.isEnded = true) :
    ∃ outcome, outlet = .ended outcome := by
  cases outlet with
  | waiting | gathering | holding => cases h
  | ended outcome => exact ⟨outcome, rfl⟩

def work : Outlet → Nat
  | waiting => 1
  | gathering _ => 3
  | holding _ => 2
  | ended _ => 0

end Outlet

namespace Pipeline

variable {σ : Type}

def work (p : Pipeline σ) : Nat :=
  p.intake.work + 3 * p.queue.items.length + p.outlet.work +
    (if p.stopped then 0 else 1) + if p.queue.closed then 0 else 1

/-- Whether an action brings a pipeline nearer to its end. -/
def Productive (p : Pipeline σ) : Action → Prop
  | .tick | .pass _ | .abort _ => False
  | .stop => p.stopped = false
  | .close => p.queue.closed = false
  | .pull | .check | .write | .expire | .refuse | .take | .gather | .hold | .accept | .finish =>
    True

theorem work_lt_of_intake {p : Pipeline σ} {intake : Intake} (h : intake.work < p.intake.work) :
    work { p with intake := intake } < p.work := by
  simp only [work]
  omega

theorem work_lt_of_call {α : Type} {p : Pipeline σ} {next : Outlet}
    (h : next.work < p.outlet.work) (fault : ArchiveError → RunFault)
    (result : Except ArchiveError α × Coordinator σ) :
    (p.afterCall next fault result).work < p.work := by
  have hless : (p.afterCall next fault result).outlet.work < p.outlet.work := by
    rcases p.outlet_afterCall next fault result with hout | ⟨e, hout⟩
    · rw [hout]
      exact h
    · rw [hout]
      exact Nat.zero_lt_of_lt h
  show p.intake.work + 3 * p.queue.items.length + (p.afterCall next fault result).outlet.work +
    (if p.stopped then 0 else 1) + (if p.queue.closed then 0 else 1) < p.work
  unfold work
  omega

variable [ObjectStore σ] {settings : PipelineSettings} {p q : Pipeline σ} {action : Action}

theorem work_lt_of_step (hstep : Step settings p action q) (hsource : p.intake.Advances)
    (hproductive : p.Productive action) : q.work < p.work := by
  cases hstep with
  | tick | pass | abort => exact hproductive.elim
  | pull hin =>
    rw [hin] at hsource
    exact work_lt_of_intake (hin ▸ (Intake.work_afterPull hsource).1)
  | check hin =>
    rw [hin] at hsource
    exact work_lt_of_intake (hin ▸ (Intake.work_afterCheck settings p _ hsource).1)
  | expire hin | refuse hin => exact work_lt_of_intake (hin ▸ Nat.succ_pos _)
  | write hin hpush =>
    obtain ⟨-, -, rfl⟩ := Queue.push?_eq_some hpush
    simp only [work, hin, Intake.work, List.length_append, List.length_singleton]
    omega
  | take hout htake =>
    obtain ⟨record, rest, hitems, -, rfl⟩ := Queue.take?_one htake
    simp only [work, hout, hitems, Outlet.work, List.length_cons]
    omega
  | gather hout hroom htake =>
    obtain ⟨record, rest, hitems, -, rfl⟩ := Queue.take?_one htake
    simp only [work, hout, hitems, Outlet.work, List.length_cons]
    omega
  | hold hout =>
    simp only [work, hout, Outlet.work]
    omega
  | accept hout => exact work_lt_of_call (hout ▸ Nat.lt_succ_self 1) _ _
  | finish hout => exact work_lt_of_call (hout ▸ Nat.lt_succ_self 0) _ _
  | stop =>
    have hopen : p.stopped = false := hproductive
    simp only [work, hopen, if_true, Bool.false_eq_true, if_false]
    omega
  | close =>
    have hopen : p.queue.closed = false := hproductive
    simp only [work, hopen, Queue.close, if_true, Bool.false_eq_true, if_false]
    omega

theorem advances_of_step (hstep : Step settings p action q) (hsource : p.intake.Advances) :
    q.intake.Advances := by
  cases hstep with
  | pull hin =>
    rw [hin] at hsource
    exact (Intake.work_afterPull hsource).2
  | check hin =>
    rw [hin] at hsource
    exact (Intake.work_afterCheck settings p _ hsource).2
  | write hin =>
    rw [hin] at hsource
    exact hsource
  | expire | refuse => trivial
  | take | gather | hold | accept | tick | finish | stop | close | pass | abort => exact hsource

/-! ## What can be done next -/

/-- Something can be done that brings a pipeline nearer to its end. -/
def Proceeds (settings : PipelineSettings) (p : Pipeline σ) (action : Action) : Prop :=
  p.Productive action ∧ ∃ q, p.step? settings action = some q

theorem proceeds_supervisorTurn (h : p.supervisorTurn = some action) :
    p.Proceeds settings action := by
  unfold supervisorTurn at h
  split at h
  · rename_i hstopped
    cases h
    have hopen : p.stopped = false := by simpa using hstopped
    exact ⟨hopen, _, rfl⟩
  · rename_i hstopped
    split at h
    · rename_i hclosed
      cases h
      have hopen : p.queue.closed = false := by simpa using hclosed
      refine ⟨hopen, ?_⟩
      have hstop : p.stopped = true := by simpa using hstopped
      simp only [step?, hstop, if_true]
      exact ⟨_, rfl⟩
    · cases h

theorem proceeds_take (hout : p.outlet = .waiting) (hitems : ¬p.queue.items.isEmpty = true) :
    p.Proceeds settings .take := by
  refine ⟨trivial, ?_⟩
  simp only [step?, hout, Queue.take?, hitems]
  exact ⟨_, rfl⟩

theorem proceeds_outletTurn (h : p.outletTurn = some action) : p.Proceeds settings action := by
  unfold outletTurn at h
  split at h
  · cases h
  · rename_i hout
    cases h
    refine ⟨trivial, ?_⟩
    simp only [step?, hout]
    exact ⟨_, rfl⟩
  · rename_i hout
    split at h
    · rename_i hitems
      cases h
      exact proceeds_take hout (by simpa using hitems)
    · rename_i hitems
      split at h
      · rename_i hclosed
        cases h
        refine ⟨trivial, ?_⟩
        have hdrained : p.queue.isDrained = true := by
          rw [Queue.isDrained, hclosed]
          simpa using hitems
        simp only [step?, hout, hdrained, if_true]
        exact ⟨_, rfl⟩
      · cases h
  · exact proceeds_supervisorTurn h

theorem proceeds_intakeTurn (h : p.intakeTurn = some action) : p.Proceeds settings action := by
  unfold intakeTurn at h
  split at h
  · rename_i hin
    cases h
    refine ⟨trivial, ?_⟩
    simp only [step?, hin]
    exact ⟨_, rfl⟩
  · rename_i hin
    cases h
    refine ⟨trivial, ?_⟩
    simp only [step?, hin]
    exact ⟨_, rfl⟩
  · rename_i hin
    split at h
    · rename_i hclosed
      cases h
      refine ⟨trivial, ?_⟩
      simp only [step?, hin, hclosed, if_true]
      exact ⟨_, rfl⟩
    · rename_i hclosed
      split at h
      · rename_i hroom
        cases h
        refine ⟨trivial, ?_⟩
        simp only [step?, hin, Queue.push?, hclosed, hroom, Bool.not_false, Bool.and_self, if_true]
        exact ⟨_, rfl⟩
      · split at h
        · rename_i hdue
          cases h
          refine ⟨trivial, ?_⟩
          simp only [step?, hin, hdue, if_true]
          exact ⟨_, rfl⟩
        · exact proceeds_outletTurn h
  · cases hsupervisor : p.supervisorTurn with
    | none =>
      rw [hsupervisor, Option.none_or] at h
      exact proceeds_outletTurn h
    | some first =>
      rw [hsupervisor, Option.some_or] at h
      cases h
      exact proceeds_supervisorTurn hsupervisor

theorem proceeds_gathering {batch : List Record} (hout : p.outlet = .gathering batch)
    (h : p.turn settings = some action) : p.Proceeds settings action := by
  unfold turn at h
  simp only [hout] at h
  split at h
  · rename_i hmore
    obtain ⟨hroom, hitems⟩ := Bool.and_eq_true_iff.mp hmore
    cases h
    refine ⟨trivial, ?_⟩
    have hne : ¬p.queue.items.isEmpty = true := by simpa using hitems
    simp only [step?, hout, decide_eq_true_eq.mp hroom, if_true, Queue.take?, hne]
    exact ⟨_, rfl⟩
  · rename_i hmore
    cases h
    refine ⟨trivial, ?_⟩
    have hfull : settings.batchSize ≤ batch.length ∨ p.queue.items.isEmpty = true := by
      by_cases hitems : p.queue.items.isEmpty = true
      · exact Or.inr hitems
      · refine Or.inl (Nat.le_of_not_lt fun hroom => hmore ?_)
        simp [hroom, hitems]
    simp only [step?, hout, hfull, if_true]
    exact ⟨_, rfl⟩

/-- What is to be done next can be done. -/
theorem proceeds_turn (h : p.turn settings = some action) : p.Proceeds settings action := by
  cases hout : p.outlet with
  | gathering batch => exact proceeds_gathering hout h
  | waiting | holding | ended =>
    unfold turn at h
    simp only [hout] at h
    exact proceeds_intakeTurn h

omit [ObjectStore σ] in
theorem closed_of_supervisorTurn (h : p.supervisorTurn = none) : p.queue.closed = true := by
  unfold supervisorTurn at h
  split at h
  · cases h
  · split at h
    · cases h
    · rename_i hclosed
      simpa using hclosed

omit [ObjectStore σ] in
/-- The sink's worker has nothing to do when it has ended and the queue is closed, or while
it waits for the first record of an open queue. -/
theorem ended_of_outletTurn (hout : ∀ batch, p.outlet ≠ .gathering batch)
    (h : p.outletTurn = none) :
    p.outlet.isEnded = true ∧ p.queue.closed = true ∨
      p.queue.items = [] ∧ p.queue.closed = false := by
  unfold outletTurn at h
  split at h
  · rename_i batch hgathering
    exact absurd hgathering (hout batch)
  · cases h
  · split at h
    · cases h
    · rename_i hitems
      split at h
      · cases h
      · rename_i hclosed
        exact Or.inr ⟨by simpa using hitems, by simpa using hclosed⟩
  · rename_i hended
    rw [hended]
    exact Or.inl ⟨rfl, closed_of_supervisorTurn h⟩

omit [ObjectStore σ] in
theorem ended_of_intakeTurn (hout : ∀ batch, p.outlet ≠ .gathering batch)
    (h : p.intakeTurn = none) : p.intake.isEnded = true ∧ p.outlet.isEnded = true := by
  unfold intakeTurn at h
  split at h
  · cases h
  · cases h
  · split at h
    · cases h
    · rename_i hclosed
      split at h
      · cases h
      · rename_i hroom
        split at h
        · cases h
        · -- A queue without room holds something to take.
          rcases ended_of_outletTurn hout h with ⟨-, hshut⟩ | ⟨hnil, -⟩
          · exact absurd hshut hclosed
          · have hpos := p.queue.capacity_pos
            simp [Queue.hasRoom, hnil, hpos] at hroom
  · rename_i hended
    rw [hended]
    obtain ⟨hsupervisor, houtlet⟩ := Option.or_eq_none_iff.mp h
    have hclosed := closed_of_supervisorTurn hsupervisor
    rcases ended_of_outletTurn hout houtlet with ⟨hdone, -⟩ | ⟨-, hopen⟩
    · exact ⟨rfl, hdone⟩
    · rw [hclosed] at hopen
      cases hopen

omit [ObjectStore σ] in
theorem ended_of_turn (h : p.turn settings = none) :
    p.intake.isEnded = true ∧ p.outlet.isEnded = true := by
  unfold turn at h
  split at h
  · split at h <;> cases h
  · rename_i hout
    exact ended_of_intakeTurn hout h

/-! ## Runs -/

theorem ended_runFrom (settings : PipelineSettings) (fuel : Nat) (hsource : p.intake.Advances)
    (hfuel : p.work < fuel) :
    (p.runFrom settings fuel).intake.isEnded = true ∧
      (p.runFrom settings fuel).outlet.isEnded = true := by
  induction fuel generalizing p with
  | zero => exact absurd hfuel (Nat.not_lt_zero _)
  | succ fuel ih =>
    unfold runFrom
    cases hturn : p.turn settings with
    | none => exact ended_of_turn hturn
    | some action =>
      obtain ⟨hproductive, q, hstep⟩ := proceeds_turn hturn
      simp only [Option.bind_some, hstep]
      have hless := work_lt_of_step (step_of_step? hstep) hsource hproductive
      exact ih (advances_of_step (step_of_step? hstep) hsource) (by omega)

omit [ObjectStore σ] in
theorem exists_result? (stop : Bool) (hin : p.intake.isEnded = true)
    (hout : p.outlet.isEnded = true) : ∃ result, p.result? stop = some result := by
  obtain ⟨outcome, hintake⟩ := Intake.exists_of_isEnded hin
  obtain ⟨outcome', houtlet⟩ := Outlet.exists_of_isEnded hout
  unfold result?
  rw [hintake, houtlet]
  cases outcome <;> cases outcome' <;> exact ⟨_, rfl⟩

/-- The schedule that is run goes to the end. -/
theorem exists_result?_run (settings : PipelineSettings) {source : Source}
    (hsource : source.Advances) (queueCapacity : Nat) (stop : Bool) (c : Coordinator σ) :
    ∃ result, (run settings source queueCapacity stop c).result? stop = some result := by
  unfold run
  cases stop with
  | false =>
    have hwork : (start source queueCapacity c).work = 8 * source.left + 4 := rfl
    obtain ⟨hin, hout⟩ := ended_runFrom settings (p := start source queueCapacity c)
      (8 * source.left + 16) hsource (by omega)
    exact exists_result? false hin hout
  | true =>
    let stopped : Pipeline σ := { start source queueCapacity c with
      stopped := true
      queue := (start source queueCapacity c).queue.close }
    have hwork : stopped.work = 8 * source.left + 2 := rfl
    obtain ⟨hin, hout⟩ := ended_runFrom settings (p := stopped)
      (8 * source.left + 16) hsource (by omega)
    exact exists_result? true hin hout

end Pipeline

end RecordArchive
