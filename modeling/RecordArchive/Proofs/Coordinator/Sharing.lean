import Mathlib.Logic.Function.Basic
import RecordArchive.Proofs.Coordinator.Handling
import RecordArchive.Proofs.Sample

/-!
# A shared coordinator

Tasks share a coordinator behind a lock.  A task that calls waits for the lock, and holds
it from the first stage of its call to the last; whichever waits may get it next.  The
tasks go on in any order, and only the lock keeps them apart.  The main statement is
`serializable`: however the stages of the calls follow one another, the calls could have
been made one after the other, in the order in which the lock was acquired.
-/

namespace RecordArchive

/-- Where a task stands. -/
inductive Task
  | idle
  /-- It waits for the lock. -/
  | waiting (call : Call)
  /-- It has the lock. -/
  | holding (stage : Stage)

/-- What a task did while it had the lock. -/
inductive Milestone
  | acquired (task : Nat) (call : Call)
  | appended (task : Nat) (record : Bytes)
  | answered (task : Nat) (answer : Answer)

/-- A coordinator, the lock, the tasks, and what they did so far. -/
structure Shared (σ : Type) where
  state : Coordinator σ
  locked : Bool := false
  tasks : Nat → Task := fun _ => .idle
  told : List Milestone := []

/-- One step of a run of tasks. -/
inductive Act (σ : Type)
  /-- A task asks for the lock to make a call. -/
  | ask (task : Nat) (call : Call)
  | acquire (task : Nat)
  /-- A task goes on to the next stage of its call. -/
  | proceed (task : Nat)
  | change (around : Circumstances σ)

/-- All that a task did from the moment it got the lock. -/
structure Stint where
  task : Nat
  call : Call
  records : List Bytes
  answer : Option Answer

/-- A part of a run in which one task at most is at work. -/
inductive Round (σ : Type)
  | change (around : Circumstances σ)
  | turn (task : Nat) (call : Call) (beats : List (Beat σ))

/-- Where rounds one after the other lead. -/
structure Serving (σ : Type) where
  state : Coordinator σ
  /-- The task that has not ended its turn, and where it stands. -/
  working : Option (Nat × Stage) := none
  stints : List Stint := []

variable {σ : Type}

def Stint.told (s : Stint) : List Milestone :=
  .acquired s.task s.call ::
    (s.records.map (.appended s.task) ++ s.answer.toList.map (.answered s.task))

def Beat.act (task : Nat) : Beat σ → Act σ
  | proceed => .proceed task
  | change around => .change around

def Round.acts : Round σ → List (Act σ)
  | change around => [.change around]
  | turn task _ beats => .acquire task :: beats.map (Beat.act task)

/-- Whether a step is more than to ask for the lock. -/
def Act.works : Act σ → Bool
  | ask _ _ => false
  | acquire _ | proceed _ | change _ => true

namespace Underway

/-- The records that were appended. -/
def written (handlings : List Handling) : List Bytes :=
  (handlings.filter Handling.isAppended).map Handling.record

/-- The stint of a task whose call has come so far. -/
def stint [ObjectStore σ] (sink : Sink) (task : Nat) (call : Call) (c : Coordinator σ)
    (beats : List (Beat σ)) : Stint :=
  ⟨task, call, written ((start call c).handlings sink beats),
    ((start call c).attend sink beats).stage.answer?⟩

end Underway

namespace Shared

variable [ObjectStore σ]

/-- The task that has the lock goes on, and releases the lock at the end of its call. -/
def goOn (sink : Sink) (task : Nat) (stage : Stage) (s : Shared σ) : Shared σ :=
  let u : Underway σ := ⟨stage, s.state⟩
  let next := u.resume sink
  let told := s.told ++ (Underway.written (u.handling sink)).map (.appended task)
  match next.stage.answer? with
  | none => { s with
      state := next.state
      tasks := Function.update s.tasks task (.holding next.stage)
      told := told }
  | some answer =>
    { state := next.state
      locked := false
      tasks := Function.update s.tasks task .idle
      told := told ++ [.answered task answer] }

def act? (sink : Sink) (s : Shared σ) : Act σ → Option (Shared σ)
  | .ask task call =>
    match s.tasks task with
    | .idle => some { s with tasks := Function.update s.tasks task (.waiting call) }
    | .waiting _ | .holding _ => none
  | .acquire task =>
    match s.tasks task with
    | .waiting call =>
      if s.locked then none
      else some { s with
        locked := true
        tasks := Function.update s.tasks task (.holding call.enter)
        told := s.told ++ [.acquired task call] }
    | .idle | .holding _ => none
  | .proceed task =>
    match s.tasks task with
    | .holding stage => some (s.goOn sink task stage)
    | .idle | .waiting _ => none
  | .change around => some { s with state := s.state.amid around }

def run? (sink : Sink) (s : Shared σ) (acts : List (Act σ)) : Option (Shared σ) :=
  acts.foldlM (act? sink) s

end Shared

namespace Serving

variable [ObjectStore σ]

/-- Makes a round, unless the turn before has not ended. -/
def round? (sink : Sink) (s : Serving σ) (round : Round σ) : Option (Serving σ) :=
  match s.working with
  | some _ => none
  | none =>
    match round with
    | .change around => some { s with state := s.state.amid around }
    | .turn task call beats =>
      let u := (Underway.start call s.state).attend sink beats
      some {
        state := u.state
        working := if u.stage.answer?.isSome then none else some (task, u.stage)
        stints := s.stints ++ [Underway.stint sink task call s.state beats] }

def run? (sink : Sink) (s : Serving σ) (rounds : List (Round σ)) : Option (Serving σ) :=
  rounds.foldlM (round? sink) s

end Serving

namespace Underway

/-! ## What a call has in hand -/

/-- While the call has a buffer in hand, there is no active one. -/
def Apart (u : Underway σ) : Prop := ∀ b, u.stage.hand? = some b → u.state.current = none

theorem apart_of_none {u : Underway σ} (h : u.stage.hand? = none) : u.Apart := by
  intro b hb
  rw [h] at hb
  cases hb

theorem apart_next (purpose : Purpose) (flushed : Bool) (totals : Tally) (c : Coordinator σ) :
    Apart ⟨purpose.next flushed totals, c⟩ :=
  apart_of_none (by cases purpose <;> rfl)

theorem apart_check (sink : Sink) (purpose : Purpose) (c : Coordinator σ) :
    (check sink purpose c).Apart := by
  unfold check
  cases c.current with
  | none => exact apart_next purpose false _ _
  | some b =>
    simp only
    split
    · split
      · exact apart_next purpose true _ _
      · exact fun _ _ => rfl
    · exact apart_next purpose false _ _

theorem apart_close (sink : Sink) (purpose : Purpose) (b : Buffer) (name : ObjectName)
    {c : Coordinator σ} (hcur : c.current = none) : (close sink purpose b name c).Apart := by
  unfold close
  cases b.finish c.world.staging with
  | mk finished staging =>
    cases finished with
    | error e => exact apart_next purpose true _ _
    | ok u => exact fun _ _ => hcur

theorem apart_attempt [ObjectStore σ] (purpose : Purpose) (s : Shipment) {c : Coordinator σ}
    (hcur : c.current = none) : (attempt purpose s c).Apart := by
  unfold attempt
  simp only
  split
  · exact apart_of_none rfl
  · cases (c.world.progress s.made).attemptOnce (World.offer s.name s.body) with
    | mk outcome p =>
      cases outcome with
      | ok u => exact apart_next purpose true _ _
      | error e =>
        cases s.spare with
        | zero => exact apart_next purpose true _ _
        | succ spare => exact fun _ _ => hcur

theorem apart_rest (sink : Sink) (purpose : Purpose) (s : Shipment) {c : Coordinator σ}
    (hcur : c.current = none) : (rest sink purpose s c).Apart := by
  unfold rest
  cases (c.world.progress s.made).rest sink.retrier c.world.chance.fractions with
  | mk cut p =>
    cases cut with
    | true => exact apart_of_none rfl
    | false => exact fun _ _ => hcur

theorem apart_read (sink : Sink) (summary : Summary) (records : List Record)
    (c : Coordinator σ) : (read sink summary c records).Apart := by
  cases records with
  | nil => exact apart_of_none rfl
  | cons record rest =>
    simp only [read]
    cases sink.codec.encode record with
    | error fault => cases sink.policy <;> exact apart_of_none rfl
    | ok bytes => exact apart_of_none rfl

theorem apart_take (sink : Sink) (summary : Summary) (record : Bytes) (records : List Record)
    (c : Coordinator σ) : (take sink summary record records c).Apart := by
  unfold take Coordinator.takeBuffer
  cases c.current with
  | some b => exact fun _ _ => rfl
  | none =>
    cases Buffer.create sink.kind c.now c.world.staging with
    | mk created staging =>
      cases created with
      | error e => exact apart_of_none rfl
      | ok b => exact fun _ _ => rfl

theorem apart_resume [ObjectStore σ] (sink : Sink) {u : Underway σ} (h : u.Apart) :
    (u.resume sink).Apart := by
  obtain ⟨stage, c⟩ := u
  cases stage with
  | reading summary records => exact apart_read sink summary records c
  | checking purpose => exact apart_check sink purpose c
  | closing purpose b name => exact apart_close sink purpose b name (h b rfl)
  | offering purpose s => exact apart_attempt purpose s (h s.buffer rfl)
  | resting purpose s => exact apart_rest sink purpose s (h s.buffer rfl)
  | taking summary record records => exact apart_take sink summary record records c
  | appending summary record records b => exact apart_of_none rfl
  | ended answer => exact h

/-! ## What a call appends -/

section

variable [ObjectStore σ] {sink : Sink}

theorem written_append (first rest : List Handling) :
    written (first ++ rest) = written first ++ written rest := by
  rw [written, List.filter_append, List.map_append]
  rfl

/-- A call appends records of its own batch, in order. -/
theorem stint_sublist (task : Nat) (call : Call) (c : Coordinator σ) (beats : List (Beat σ)) :
    (stint sink task call c beats).records.Sublist (call.encodings sink) :=
  (List.filter_sublist.map Handling.record).trans (handlings_sublist call c beats)

/-- A change of the surroundings is no part of a stint. -/
theorem stint_change (task : Nat) (call : Call) (c : Coordinator σ) (beats : List (Beat σ))
    (around : Circumstances σ) :
    stint sink task call c (beats ++ [.change around]) = stint sink task call c beats := by
  rw [stint, stint, attend_snoc, handlings_snoc, handlings, handlings, List.append_nil]
  rfl

theorem told_stint_proceed (task : Nat) {call : Call} {c : Coordinator σ}
    {beats : List (Beat σ)} {u : Underway σ} (hattend : (start call c).attend sink beats = u)
    (hgoing : u.stage.answer? = none) :
    (stint sink task call c (beats ++ [.proceed])).told =
      (stint sink task call c beats).told ++
        ((written (u.handling sink)).map (.appended task) ++
          (u.resume sink).stage.answer?.toList.map (.answered task)) := by
  simp [Stint.told, stint, attend_snoc, handlings_snoc, written_append, hattend, hgoing, beat,
    handlings]

end

end Underway

/-! ## Rounds -/

section

variable [ObjectStore σ] {sink : Sink}

theorem Serving.run?_snoc {s s' : Serving σ} {rounds : List (Round σ)} (round : Round σ)
    (h : s.run? sink rounds = some s') :
    s.run? sink (rounds ++ [round]) = s'.round? sink round := by
  rw [run?] at h
  rw [run?, List.foldlM_append, h]
  exact bind_pure (s'.round? sink round)

theorem Serving.stints_round {s s' : Serving σ} {round : Round σ}
    (h : s.round? sink round = some s')
    (hs : ∀ stint ∈ s.stints, stint.records.Sublist (stint.call.encodings sink)) :
    ∀ stint ∈ s'.stints, stint.records.Sublist (stint.call.encodings sink) := by
  unfold round? at h
  cases hworking : s.working with
  | some entry => simp [hworking] at h
  | none =>
    cases round with
    | change around =>
      simp only [hworking, Option.some.injEq] at h
      subst h
      exact hs
    | turn task call beats =>
      simp only [hworking, Option.some.injEq] at h
      subst h
      intro stint hstint
      rcases List.mem_append.mp hstint with hbefore | hlast
      · exact hs stint hbefore
      · rw [List.mem_singleton.mp hlast]
        exact Underway.stint_sublist task call s.state beats

theorem Serving.stints_run {s s' : Serving σ} {rounds : List (Round σ)}
    (h : s.run? sink rounds = some s')
    (hs : ∀ stint ∈ s.stints, stint.records.Sublist (stint.call.encodings sink)) :
    ∀ stint ∈ s'.stints, stint.records.Sublist (stint.call.encodings sink) := by
  induction rounds generalizing s with
  | nil =>
    obtain rfl : s = s' := Option.some.inj h
    exact hs
  | cons round rest ih =>
    rw [run?, List.foldlM_cons] at h
    obtain ⟨next, hnext, hrest⟩ := Option.bind_eq_some_iff.mp h
    exact ih hrest (stints_round hnext hs)

end

/-! ## Steps and tasks -/

theorem filter_works_snoc (acts : List (Act σ)) {act : Act σ} (h : act.works = true) :
    (acts ++ [act]).filter Act.works = acts.filter Act.works ++ [act] := by
  rw [List.filter_append, List.filter_cons_of_pos h, List.filter_nil]

theorem filter_works_ask (acts : List (Act σ)) (task : Nat) (call : Call) :
    (acts ++ [Act.ask task call]).filter Act.works = acts.filter Act.works := by
  rw [List.filter_append]
  exact List.append_nil _

theorem flatMap_acts_snoc (rounds : List (Round σ)) (round : Round σ) :
    (rounds ++ [round]).flatMap Round.acts = rounds.flatMap Round.acts ++ round.acts := by
  rw [List.flatMap_append, List.flatMap_singleton]

theorem acts_turn_snoc (rounds : List (Round σ)) (task : Nat) (call : Call)
    (beats : List (Beat σ)) (beat : Beat σ) :
    (rounds ++ [Round.turn task call (beats ++ [beat])]).flatMap Round.acts =
      (rounds ++ [Round.turn task call beats]).flatMap Round.acts ++ [beat.act task] := by
  simp [Round.acts]

theorem update_cases {tasks : Nat → Task} {task other : Nat} {now here : Task}
    (h : Function.update tasks task now other = here) :
    other = task ∧ now = here ∨ other ≠ task ∧ tasks other = here := by
  by_cases hother : other = task
  · subst hother
    rw [Function.update_self] at h
    exact Or.inl ⟨rfl, h⟩
  · rw [Function.update_of_ne hother] at h
    exact Or.inr ⟨hother, h⟩

/-! ## The lock keeps the tasks apart -/

namespace Shared

variable [ObjectStore σ] {sink : Sink} {c : Coordinator σ} {acts : List (Act σ)} {s s' : Shared σ}

/-- Nobody has the lock, and all turns so far have ended. -/
structure Free (sink : Sink) (c : Coordinator σ) (acts : List (Act σ)) (s : Shared σ)
    (rounds : List (Round σ)) (stints : List Stint) : Prop where
  acts_eq : rounds.flatMap Round.acts = acts.filter Act.works
  run_eq : Serving.run? sink { state := c } rounds = some ⟨s.state, none, stints⟩
  told_eq : s.told = stints.flatMap Stint.told
  unlocked : s.locked = false
  nobody : ∀ task stage, s.tasks task ≠ .holding stage

/-- The stage of the one task that has the lock, the turns before, and what it has done
in its own. -/
structure Busy (sink : Sink) (c : Coordinator σ) (acts : List (Act σ)) (s : Shared σ)
    (rounds : List (Round σ)) (stints : List Stint) (before : Coordinator σ)
    (task : Nat) (call : Call) (beats : List (Beat σ)) (stage : Stage) : Prop where
  acts_eq : (rounds ++ [Round.turn task call beats]).flatMap Round.acts = acts.filter Act.works
  run_eq : Serving.run? sink { state := c } rounds = some ⟨before, none, stints⟩
  attend_eq : (Underway.start call before).attend sink beats = ⟨stage, s.state⟩
  going : stage.answer? = none
  told_eq : s.told = (stints ++ [Underway.stint sink task call before beats]).flatMap Stint.told
  locked : s.locked = true
  holding : s.tasks task = .holding stage
  alone : ∀ other stage', s.tasks other = .holding stage' → other = task
  apart : Underway.Apart ⟨stage, s.state⟩

/-- Either way, the run up to now is one of rounds. -/
def Follows (sink : Sink) (c : Coordinator σ) (acts : List (Act σ)) (s : Shared σ) : Prop :=
  (∃ rounds stints, Free sink c acts s rounds stints) ∨
    ∃ rounds stints before task call beats stage,
      Busy sink c acts s rounds stints before task call beats stage

theorem follows_ask {task : Nat} {call : Call} (h : Follows sink c acts s)
    (hidle : s.tasks task = .idle) :
    Follows sink c (acts ++ [.ask task call])
      { s with tasks := Function.update s.tasks task (.waiting call) } := by
  -- Whoever holds the lock after that has held it before.
  have hheld {other : Nat} {stage : Stage}
      (h : Function.update s.tasks task (.waiting call) other = .holding stage) :
      s.tasks other = .holding stage := by
    rcases update_cases h with ⟨-, hnow⟩ | ⟨-, hother⟩
    · cases hnow
    · exact hother
  rcases h with ⟨rounds, stints, h⟩ | ⟨rounds, stints, before, owner, own, beats, stage, h⟩
  · refine Or.inl ⟨rounds, stints, ?_, h.run_eq, h.told_eq, h.unlocked, ?_⟩
    · exact h.acts_eq.trans (filter_works_ask acts task call).symm
    · exact fun other stage hother => h.nobody other stage (hheld hother)
  · have howner : owner ≠ task := by
      rintro rfl
      rw [h.holding] at hidle
      cases hidle
    refine Or.inr ⟨rounds, stints, before, owner, own, beats, stage, ?_, h.run_eq, h.attend_eq,
      h.going, h.told_eq, h.locked, ?_, ?_, h.apart⟩
    · exact h.acts_eq.trans (filter_works_ask acts task call).symm
    · exact (Function.update_of_ne howner _ _).trans h.holding
    · exact fun other stage' hother => h.alone other stage' (hheld hother)

theorem follows_acquire {task : Nat} {call : Call} (h : Follows sink c acts s)
    (hunlocked : s.locked = false) :
    Follows sink c (acts ++ [.acquire task])
      { s with
        locked := true
        tasks := Function.update s.tasks task (.holding call.enter)
        told := s.told ++ [.acquired task call] } := by
  rcases h with ⟨rounds, stints, h⟩ | ⟨rounds, stints, before, owner, own, beats, stage, h⟩
  · have hgoing : call.enter.answer? = none := by cases call <;> rfl
    have hempty : call.enter.hand? = none := by cases call <;> rfl
    refine Or.inr ⟨rounds, stints, s.state, task, call, [], call.enter, ?_, h.run_eq, rfl,
      hgoing, ?_, rfl, Function.update_self .., ?_, Underway.apart_of_none hempty⟩
    · rw [filter_works_snoc acts rfl, ← h.acts_eq, flatMap_acts_snoc]
      rfl
    · show s.told ++ [.acquired task call] = _
      rw [List.flatMap_append, ← h.told_eq, List.flatMap_singleton]
      show _ = s.told ++ .acquired task call :: ([] ++ call.enter.answer?.toList.map _)
      rw [hgoing]
      rfl
    · intro other stage' hother
      rcases update_cases hother with ⟨hsame, -⟩ | ⟨-, hother⟩
      · exact hsame
      · exact absurd hother (h.nobody other stage')
  · rw [h.locked] at hunlocked
    cases hunlocked

theorem follows_change (around : Circumstances σ) (h : Follows sink c acts s) :
    Follows sink c (acts ++ [.change around]) { s with state := s.state.amid around } := by
  rcases h with ⟨rounds, stints, h⟩ | ⟨rounds, stints, before, owner, own, beats, stage, h⟩
  · refine Or.inl ⟨rounds ++ [.change around], stints, ?_, ?_, h.told_eq, h.unlocked, h.nobody⟩
    · rw [filter_works_snoc acts rfl, ← h.acts_eq, flatMap_acts_snoc]
      rfl
    · rw [Serving.run?_snoc _ h.run_eq]
      rfl
  · have hattend : (Underway.start own before).attend sink (beats ++ [.change around]) =
        ⟨stage, s.state.amid around⟩ := by
      rw [Underway.attend_snoc, h.attend_eq]
      rfl
    refine Or.inr ⟨rounds, stints, before, owner, own, beats ++ [.change around], stage, ?_,
      h.run_eq, hattend, h.going, ?_, h.locked, h.holding, h.alone, h.apart⟩
    · rw [filter_works_snoc acts rfl, ← h.acts_eq, acts_turn_snoc]
      rfl
    · rw [Underway.stint_change]
      exact h.told_eq

theorem follows_proceed {task : Nat} {stage : Stage} (h : Follows sink c acts s)
    (hholding : s.tasks task = .holding stage) :
    Follows sink c (acts ++ [.proceed task]) (s.goOn sink task stage) := by
  rcases h with ⟨rounds, stints, h⟩ | ⟨rounds, stints, before, owner, own, beats, stage', h⟩
  · exact absurd hholding (h.nobody task stage)
  · obtain rfl : task = owner := h.alone task stage hholding
    obtain rfl : stage' = stage := Task.holding.inj (h.holding.symm.trans hholding)
    have hattend : (Underway.start own before).attend sink (beats ++ [.proceed]) =
        Underway.resume sink ⟨stage', s.state⟩ := by
      rw [Underway.attend_snoc, h.attend_eq]
      rfl
    have hacts : (rounds ++ [Round.turn task own (beats ++ [Beat.proceed])]).flatMap Round.acts =
        (acts ++ [Act.proceed task]).filter Act.works := by
      rw [filter_works_snoc acts rfl, ← h.acts_eq, acts_turn_snoc]
      rfl
    have htold := Underway.told_stint_proceed task h.attend_eq h.going
    have hapart := Underway.apart_resume sink h.apart
    simp only [goOn]
    generalize Underway.resume sink ⟨stage', s.state⟩ = next at hattend htold hapart ⊢
    cases hanswer : next.stage.answer? with
    | none =>
      refine Or.inr ⟨rounds, stints, before, task, own, beats ++ [.proceed], next.stage, hacts,
        h.run_eq, hattend, hanswer, ?_, h.locked, Function.update_self .., ?_, hapart⟩
      · rw [List.flatMap_append, List.flatMap_singleton, htold]
        simp [h.told_eq, hanswer]
      · intro other stage hother
        rcases update_cases hother with ⟨hsame, -⟩ | ⟨-, hother⟩
        · exact hsame
        · exact h.alone other stage hother
    | some answer =>
      refine Or.inl ⟨rounds ++ [.turn task own (beats ++ [.proceed])],
        stints ++ [Underway.stint sink task own before (beats ++ [.proceed])], hacts, ?_, ?_,
        rfl, ?_⟩
      · rw [Serving.run?_snoc _ h.run_eq]
        simp [Serving.round?, hattend, hanswer]
      · rw [List.flatMap_append, List.flatMap_singleton, htold]
        simp [h.told_eq, hanswer]
      · intro other stage hother
        rcases update_cases hother with ⟨-, hnow⟩ | ⟨hother', hother⟩
        · cases hnow
        · exact hother' (h.alone other stage hother)

theorem follows_act {act : Act σ} (h : Follows sink c acts s) (hact : s.act? sink act = some s') :
    Follows sink c (acts ++ [act]) s' := by
  unfold act? at hact
  cases act with
  | ask task call =>
    cases htask : s.tasks task with
    | idle =>
      simp only [htask, Option.some.injEq] at hact
      exact hact ▸ follows_ask h htask
    | waiting call => simp [htask] at hact
    | holding stage => simp [htask] at hact
  | acquire task =>
    cases htask : s.tasks task with
    | waiting call =>
      cases hlocked : s.locked with
      | false =>
        simp only [htask, hlocked, Bool.false_eq_true, if_false, Option.some.injEq] at hact
        exact hact ▸ follows_acquire h hlocked
      | true => simp [htask, hlocked] at hact
    | idle => simp [htask] at hact
    | holding stage => simp [htask] at hact
  | proceed task =>
    cases htask : s.tasks task with
    | holding stage =>
      simp only [htask, Option.some.injEq] at hact
      exact hact ▸ follows_proceed h htask
    | idle => simp [htask] at hact
    | waiting call => simp [htask] at hact
  | change around =>
    obtain rfl := Option.some.inj hact
    exact follows_change around h

theorem follows_run {more : List (Act σ)} (h : Follows sink c acts s)
    (hrun : s.run? sink more = some s') : Follows sink c (acts ++ more) s' := by
  induction more generalizing acts s with
  | nil =>
    obtain rfl : s = s' := Option.some.inj hrun
    rwa [List.append_nil]
  | cons act rest ih =>
    rw [run?, List.foldlM_cons] at hrun
    obtain ⟨next, hact, hrest⟩ := Option.bind_eq_some_iff.mp hrun
    rw [List.append_cons]
    exact ih (follows_act h hact) hrest

theorem follows_start (sink : Sink) (c : Coordinator σ) : Follows sink c [] { state := c } :=
  Or.inl ⟨[], [], rfl, rfl, rfl, rfl, fun _ _ h => nomatch h⟩

theorem rounds_of_follows (h : Follows sink c acts s) :
    ∃ rounds working stints,
      rounds.flatMap Round.acts = acts.filter Act.works ∧
      Serving.run? sink { state := c } rounds = some ⟨s.state, working, stints⟩ ∧
      s.told = stints.flatMap Stint.told ∧
      ∀ task stage, s.tasks task = .holding stage ↔ working = some (task, stage) := by
  rcases h with ⟨rounds, stints, h⟩ | ⟨rounds, stints, before, owner, own, beats, stage, h⟩
  · refine ⟨rounds, none, stints, h.acts_eq, h.run_eq, h.told_eq, fun task stage => ?_⟩
    exact ⟨fun hholding => absurd hholding (h.nobody task stage), fun h => nomatch h⟩
  · refine ⟨_, some (owner, stage), _, h.acts_eq, ?_, h.told_eq, fun task stage' => ?_⟩
    · rw [Serving.run?_snoc _ h.run_eq]
      simp [Serving.round?, h.attend_eq, h.going]
    · constructor
      · intro hholding
        obtain rfl := h.alone task stage' hholding
        rw [Task.holding.inj (h.holding.symm.trans hholding)]
      · intro hworking
        obtain ⟨rfl, rfl⟩ := Prod.mk.inj (Option.some.inj hworking)
        exact h.holding

/-- However the stages of calls follow one another, the calls could have been made in
turns, in the order in which the lock was acquired and with the surroundings changing at
the same moments: the coordinator, the puts that it made included, and all answers and
records are then the same.  No two tasks have the lock, there is no active buffer while the
one that has it has a buffer in hand, and the records that a call appends are records of
its batch, one after the other.  A turn that is not disturbed is the call itself. -/
theorem serializable (sink : Sink) (c : Coordinator σ)
    (h : run? sink { state := c } acts = some s) :
    (∃ rounds working stints,
      rounds.flatMap Round.acts = acts.filter Act.works ∧
      Serving.run? sink { state := c } rounds = some ⟨s.state, working, stints⟩ ∧
      s.told = stints.flatMap Stint.told ∧
      (∀ task stage, s.tasks task = .holding stage ↔ working = some (task, stage)) ∧
      ∀ stint ∈ stints, stint.records.Sublist (stint.call.encodings sink)) ∧
    (∀ task stage b, s.tasks task = .holding stage → stage.hand? = some b →
      s.state.current = none) ∧
    ∀ (call : Call) (before : Coordinator σ),
      (∃ n, (Underway.start call before).attend sink (List.replicate n .proceed) =
        ⟨.ended (before.reply sink (.call call)).1, (before.reply sink (.call call)).2⟩) ∧
      ∀ n answer next,
        (Underway.start call before).attend sink (List.replicate n .proceed) =
          ⟨.ended answer, next⟩ → before.reply sink (.call call) = (answer, next) := by
  have hfollows := follows_run (follows_start sink c) h
  refine ⟨?_, ?_, fun call before => ⟨Underway.exists_attend_eq_reply sink call before,
    fun n answer next => Underway.reply_of_attend⟩⟩
  · obtain ⟨rounds, working, stints, hacts, hrun, htold, hholding⟩ := rounds_of_follows hfollows
    exact ⟨rounds, working, stints, hacts, hrun, htold, hholding,
      Serving.stints_run hrun fun stint hstint => nomatch hstint⟩
  · intro task stage b hholding hhand
    rcases hfollows with ⟨_, _, h⟩ | ⟨_, _, _, owner, _, _, stage', h⟩
    · exact absurd hholding (h.nobody task stage)
    · obtain rfl := h.alone task stage hholding
      obtain rfl := Task.holding.inj (h.holding.symm.trans hholding)
      exact h.apart b hhand

/-- Two tasks that ask for the lock one after the other.  The second asks while the first
has a buffer in hand, and the store is replaced before the second gets the lock. -/
def sampleActs : List (Act MemoryStore) :=
  [Act.ask 0 (.accept [Sample.record "a", Sample.record "b"]), .acquire 0] ++
    List.replicate 7 (Act.proceed 0) ++ [Act.ask 1 .shutdown] ++ List.replicate 4 (Act.proceed 0) ++
    [Act.change Sample.failing, .acquire 1] ++ List.replicate 3 (Act.proceed 1)

theorem serializable_sample :
    let c := Coordinator.start Sample.world
    ∃ s, run? Sample.sink { state := c } sampleActs = some s ∧
      ∃ rounds working stints,
        rounds.flatMap Round.acts = sampleActs.filter Act.works ∧
        Serving.run? Sample.sink { state := c } rounds = some ⟨s.state, working, stints⟩ ∧
        s.told = stints.flatMap Stint.told ∧
        (∀ task stage, s.tasks task = .holding stage ↔ working = some (task, stage)) ∧
        ∀ stint ∈ stints, stint.records.Sublist (stint.call.encodings Sample.sink) := by
  intro c
  have hpossible : (run? Sample.sink { state := c } sampleActs).isSome = true := by
    decide +kernel
  obtain ⟨s, hs⟩ := Option.isSome_iff_exists.mp hpossible
  exact ⟨s, hs, (serializable Sample.sink c hs).1⟩

end Shared

end RecordArchive
