import RecordArchive.Coordinator

/-!
# The course of a call

A call does one thing after the other: it refuses a record, it cuts the active
buffer off, or it adds a record.  Which of these moves a call makes depends on
its records alone; what a move does depends on the coordinator and on what
surrounds it, and is told by its deeds.  The main statements are `call_eq`, that a
call is the run of its moves up to the first that fails, and `runAmid_invariant`, that
what every move preserves holds after any sequence of calls, even where the surroundings
change in the middle of a call.
-/

namespace RecordArchive

/-- What a coordinator can be asked to do. -/
inductive Call
  | accept (batch : List Record)
  | flushExpired
  | shutdown

/-- What a call finds around the coordinator: the clock, the store, whether the
staging directory can be used, and the room that is left on the disk. -/
structure Circumstances (σ : Type) where
  clock : Clock
  store : σ
  usable : Bool
  room : Option Nat

/-- A buffer that a coordinator gave up, the staging files at that moment, and the
puts that were made for it, in order. -/
structure Retired where
  buffer : Buffer
  staging : Staging
  puts : List Put

/-- How the upload of a buffer ended. -/
inductive Fate
  | stored
  | lost
  | interrupted
  deriving DecidableEq, Repr

/-- What was done to a record or to a buffer. -/
inductive Deed
  /-- A record could not be encoded, and so many were dropped with it. -/
  | refused (dropped : Nat)
  /-- There was no buffer for a record, and none could be made. -/
  | unopened (record : Bytes)
  /-- A record was appended to a buffer, of which there is a reading from before. -/
  | appended (record : Bytes) (before : Snapshot)
  /-- A record could not be written to a buffer, which was given up. -/
  | abandoned (record : Bytes) (buffer : Retired)
  | uploaded (fate : Fate) (buffer : Retired)

/-- One step of a call. -/
inductive Move
  | refuse (dropped : Nat)
  /-- The active buffer is retired if it is due. -/
  | cut (due : Snapshot → Bool)
  | add (record : Bytes)

/-- How moves ended, what they did, and the coordinator after them. -/
structure Course (σ : Type) where
  outcome : Except ArchiveError Unit
  deeds : List Deed
  state : Coordinator σ

/-- How calls ended, what they did, and the coordinator after them. -/
structure History (σ : Type) where
  outcomes : List (Except ArchiveError Unit)
  deeds : List Deed
  final : Coordinator σ

variable {σ : Type}

/-- How an upload ended, told by its answer and by what was counted. -/
def Fate.of {α : Type} (outcome : Except ArchiveError α) (before after : Tally) : Fate :=
  match outcome with
  | .error _ => .interrupted
  | .ok _ => if before.buffersFlushed < after.buffersFlushed then .stored else .lost

/-- The puts that were made between two moments, in order. -/
def World.putsUntil (before after : World σ) : List Put :=
  (after.puts.take (after.puts.length - before.puts.length)).reverse

theorem World.putsUntil_eq {before after : World σ} {tried : List Put}
    (h : after.puts = tried ++ before.puts) : before.putsUntil after = tried.reverse := by
  rw [putsUntil, h, List.length_append, Nat.add_sub_cancel, List.take_left]

/-- The moves by which a batch is accepted. -/
def Sink.moves (sink : Sink) : List Record → List Move
  | [] => []
  | record :: rest =>
    match sink.codec.encode record with
    | .error _ =>
      match sink.policy with
      | .abort => [.refuse (rest.length + 1)]
      | .skip => .refuse 1 :: sink.moves rest
    | .ok bytes => .cut sink.limits.shouldFlush :: .add bytes :: sink.moves rest

namespace Call

def moves (sink : Sink) : Call → List Move
  | accept batch => sink.moves batch
  | flushExpired => [.cut sink.limits.isExpired]
  | shutdown => [.cut fun _ => true]

def batch : Call → List Record
  | accept batch => batch
  | flushExpired | shutdown => []

/-- The records of a call that can be encoded. -/
def encodings (sink : Sink) (call : Call) : List Bytes :=
  call.batch.filterMap fun record => (sink.codec.encode record).toOption

end Call

namespace Deed

def record? : Deed → Option Bytes
  | appended record _ => some record
  | refused _ | unopened _ | abandoned _ _ | uploaded _ _ => none

def retired? : Deed → Option Retired
  | abandoned _ buffer | uploaded _ buffer => some buffer
  | refused _ | unopened _ | appended _ _ => none

end Deed

/-- The records that were appended, in order. -/
def appended (deeds : List Deed) : List Bytes := deeds.filterMap Deed.record?

/-- The buffers that were given up, in order. -/
def retirements (deeds : List Deed) : List Retired := deeds.filterMap Deed.retired?

theorem appended_cons (deed : Deed) (deeds : List Deed) :
    appended (deed :: deeds) = deed.record?.toList ++ appended deeds := by
  cases deed <;> rfl

theorem appended_snoc (deeds : List Deed) (deed : Deed) :
    appended (deeds ++ [deed]) = appended deeds ++ deed.record?.toList := by
  cases deed <;> simp [appended, Deed.record?]

theorem retirements_cons (deed : Deed) (deeds : List Deed) :
    retirements (deed :: deeds) = deed.retired?.toList ++ retirements deeds := by
  cases deed <;> rfl

theorem retirements_snoc (deeds : List Deed) (deed : Deed) :
    retirements (deeds ++ [deed]) = retirements deeds ++ deed.retired?.toList := by
  cases deed <;> simp [retirements, Deed.retired?]

namespace Coordinator

/-- The coordinator in new surroundings.  Its buffer stays what it is. -/
def amid (c : Coordinator σ) (around : Circumstances σ) : Coordinator σ :=
  { c with world := { c.world with
      clock := around.clock
      store := around.store
      staging := { c.world.staging with usable := around.usable, room := around.room } } }

/-- The coordinator in new surroundings, where there are any. -/
def amid? (c : Coordinator σ) : Option (Circumstances σ) → Coordinator σ
  | none => c
  | some around => c.amid around

theorem tally_amid? (c : Coordinator σ) (around : Option (Circumstances σ)) :
    (c.amid? around).tally = c.tally := by
  cases around <;> rfl

/-- The name under which a buffer is uploaded that is retired now. -/
def uploadName (sink : Sink) (c : Coordinator σ) : ObjectName :=
  ⟨sink.bucket, sink.namer.key c.world.instant c.world.drawId.1⟩

/-- What a cut did, seen from before and after. -/
def cutDeeds (due : Snapshot → Bool) (c : Coordinator σ) (outcome : Except ArchiveError Bool)
    (next : Coordinator σ) : List Deed :=
  match c.current with
  | none => []
  | some b =>
    if due (b.snapshot c.now) then
      [.uploaded (.of outcome c.tally next.tally)
        ⟨b, c.world.staging, c.world.putsUntil next.world⟩]
    else []

/-- What an addition did, seen from before and after. -/
def addDeeds (sink : Sink) (record : Bytes) (c : Coordinator σ) (added : Bool)
    (next : Coordinator σ) : List Deed :=
  match c.takeBuffer sink with
  | (.error _, _) => [.unopened record]
  | (.ok b, opened) =>
    if added then [.appended record (b.snapshot c.now)]
    else [.abandoned record ⟨b, opened.world.staging, c.world.putsUntil next.world⟩]

/-! ## Additions -/

/-- An append looks at the active buffer, the time, the totals and the staging files,
and changes nothing else. -/
theorem append_frame (sink : Sink) (record : Bytes) {c c' : Coordinator σ}
    (hnow : c.now = c'.now) (hcur : c.current = c'.current) (htally : c.tally = c'.tally)
    (hstaging : c.world.staging = c'.world.staging) :
    (c.append sink record).1 = (c'.append sink record).1 ∧
      (c.append sink record).2 = { (c'.append sink record).2 with
        world := { c.world with staging := (c'.append sink record).2.world.staging } } := by
  unfold append takeBuffer
  rw [hcur, hnow, hstaging]
  cases c'.current with
  | some b =>
    simp only [hstaging]
    cases b.append record c'.world.staging with
    | mk outcome s => cases outcome <;> simp [htally]
  | none =>
    cases Buffer.create sink.kind c'.now c'.world.staging with
    | mk outcome s =>
      cases outcome with
      | error e => simp [htally]
      | ok b =>
        simp only
        cases b.append record s with
        | mk outcome s' => cases outcome <;> simp [htally]

theorem add_frame (sink : Sink) (record : Bytes) {c c' : Coordinator σ}
    (hnow : c.now = c'.now) (hcur : c.current = c'.current) (htally : c.tally = c'.tally)
    (hstaging : c.world.staging = c'.world.staging) :
    (c.add sink record).2 = { (c'.add sink record).2 with
      world := { c.world with staging := (c'.add sink record).2.world.staging } } := by
  obtain ⟨hadded, hnext⟩ := append_frame sink record hnow hcur htally hstaging
  unfold add
  generalize c.append sink record = answer at hadded hnext
  generalize c'.append sink record = answer' at hadded hnext
  obtain ⟨added, next⟩ := answer
  obtain ⟨added', next'⟩ := answer'
  simp only at hadded hnext
  subst hadded hnext
  cases added <;> rfl

/-- Of the world, an addition changes the staging files alone. -/
theorem add_world (sink : Sink) (record : Bytes) (c : Coordinator σ) :
    (c.add sink record).2 = { (c.add sink record).2 with
      world := { c.world with staging := (c.add sink record).2.world.staging } } :=
  add_frame sink record rfl rfl rfl rfl

/-! ## Moves and calls -/

variable [ObjectStore σ]

def perform (sink : Sink) (c : Coordinator σ) : Move → Course σ
  | .refuse dropped => ⟨.ok (), [.refused dropped], c.refuse dropped⟩
  | .cut due =>
    let (outcome, next) := c.flushWhen sink due
    ⟨outcome.map fun _ => (), c.cutDeeds due outcome next, next⟩
  | .add record =>
    let (added, next) := c.add sink record
    ⟨.ok (), c.addDeeds sink record added next, next⟩

/-- Makes moves up to the first that fails. -/
def performAll (sink : Sink) : List Move → Coordinator σ → Course σ
  | [], c => ⟨.ok (), [], c⟩
  | move :: rest, c =>
    let first := c.perform sink move
    match first.outcome with
    | .error e => ⟨.error e, first.deeds, first.state⟩
    | .ok () =>
      let later := performAll sink rest first.state
      ⟨later.outcome, first.deeds ++ later.deeds, later.state⟩

/-- The moves that are made up to the first that fails, each with the coordinator
that makes it. -/
def steps (sink : Sink) : List Move → Coordinator σ → List (Coordinator σ × Move)
  | [], _ => []
  | move :: rest, c =>
    (c, move) :: match (c.perform sink move).outcome with
      | .error _ => []
      | .ok () => steps sink rest (c.perform sink move).state

/-- Answers a call, without what it tells beside whether it failed. -/
def call (sink : Sink) (c : Coordinator σ) : Call → Except ArchiveError Unit × Coordinator σ
  | .accept batch =>
    let (outcome, next) := c.accept sink batch
    (outcome.map fun _ => (), next)
  | .flushExpired =>
    let (outcome, next) := c.flushExpired sink
    (outcome.map fun _ => (), next)
  | .shutdown =>
    let (outcome, next) := c.shutdown sink
    (outcome.map fun _ => (), next)

/-- Answers calls one after the other, each in its own surroundings.  A call that
fails does not keep the next one from being made. -/
def run (sink : Sink) : List (Circumstances σ × Call) → Coordinator σ → History σ
  | [], c => ⟨[], [], c⟩
  | (around, call) :: rest, c =>
    let c := c.amid around
    let (outcome, next) := c.call sink call
    let later := run sink rest next
    ⟨outcome :: later.outcomes, (c.performAll sink (call.moves sink)).deeds ++ later.deeds,
      later.final⟩

/-- The moves that a run makes, each with the coordinator that makes it. -/
def runSteps (sink : Sink) :
    List (Circumstances σ × Call) → Coordinator σ → List (Coordinator σ × Move)
  | [], _ => []
  | (around, call) :: rest, c =>
    (c.amid around).steps sink (call.moves sink) ++
      runSteps sink rest ((c.amid around).call sink call).2

/-! ## Cuts -/

theorem current_retire (sink : Sink) (b : Buffer) (c : Coordinator σ) :
    (retire sink b c).2.current = c.current := by
  unfold retire
  split
  · rfl
  · simp only
    split <;> rfl

/-- A cut finds nothing due and leaves everything as it is, or it retires the active
buffer. -/
theorem flushWhen_cases (sink : Sink) (due : Snapshot → Bool) (c : Coordinator σ) :
    (∀ b, c.current = some b → due (b.snapshot c.now) = false) ∧
        c.flushWhen sink due = (.ok false, c) ∨
      ∃ b, c.current = some b ∧ due (b.snapshot c.now) = true ∧
        c.flushWhen sink due = ((retire sink b { c with current := none }).1.map fun _ => true,
          (retire sink b { c with current := none }).2) := by
  unfold flushWhen
  cases hcur : c.current with
  | none => exact Or.inl ⟨by simp, rfl⟩
  | some b =>
    cases hdue : due (b.snapshot c.now) with
    | false => exact Or.inl ⟨fun b' hb' => Option.some.inj hb' ▸ hdue, by simp [hdue]⟩
    | true =>
      refine Or.inr ⟨b, rfl, hdue, ?_⟩
      simp only [hdue, if_true]
      generalize retire sink b { c with current := none } = retired
      obtain ⟨outcome, next⟩ := retired
      cases outcome <;> rfl

theorem current_shutdown (sink : Sink) (c : Coordinator σ) :
    (c.shutdown sink).2.current = none := by
  unfold shutdown
  rcases flushWhen_cases sink (fun _ => true) c with ⟨hdue, hflush⟩ | ⟨b, -, -, hflush⟩
  · have hnone : c.current = none := by
      cases hcur : c.current with
      | none => rfl
      | some b => exact absurd (hdue b hcur) (by simp)
    rw [hflush]
    exact hnone
  · have hretire := current_retire sink b { c with current := none }
    rw [hflush]
    generalize retire sink b { c with current := none } = retired at hretire
    obtain ⟨outcome, next⟩ := retired
    cases outcome <;> exact hretire

/-- What a cut does, with its deeds. -/
theorem perform_cut_cases (sink : Sink) (due : Snapshot → Bool) (c : Coordinator σ) :
    (∀ b, c.current = some b → due (b.snapshot c.now) = false) ∧
        c.perform sink (.cut due) = ⟨.ok (), [], c⟩ ∨
      ∃ b outcome next, c.current = some b ∧ due (b.snapshot c.now) = true ∧
        retire sink b { c with current := none } = (outcome, next) ∧
        c.perform sink (.cut due) = ⟨outcome, [.uploaded (.of outcome c.tally next.tally)
          ⟨b, c.world.staging, c.world.putsUntil next.world⟩], next⟩ := by
  rcases flushWhen_cases sink due c with ⟨hdue, hflush⟩ | ⟨b, hcur, hdue, hflush⟩
  · refine Or.inl ⟨hdue, ?_⟩
    have hdeeds : c.cutDeeds due (.ok false) c = [] := by
      unfold cutDeeds
      cases hcur : c.current with
      | none => rfl
      | some b => simp [hdue b hcur]
    simp only [perform, hflush, hdeeds]
    rfl
  · cases hretire : retire sink b { c with current := none } with
    | mk outcome next =>
      refine Or.inr ⟨b, outcome, next, hcur, hdue, hretire, ?_⟩
      simp only [perform, hflush, hretire, cutDeeds, hcur, hdue, if_true]
      cases outcome <;> rfl

theorem perform_cut_of_none (sink : Sink) (due : Snapshot → Bool) {c : Coordinator σ}
    (h : c.current = none) : c.perform sink (.cut due) = ⟨.ok (), [], c⟩ := by
  rcases perform_cut_cases sink due c with ⟨-, hstill⟩ | ⟨b, _, _, hcur, -⟩
  · exact hstill
  · rw [h] at hcur
    cases hcur

/-! ## Calls and moves -/

theorem steps_singleton (sink : Sink) (move : Move) (c : Coordinator σ) :
    c.steps sink [move] = [(c, move)] := by
  simp only [steps]
  cases (c.perform sink move).outcome <;> rfl

theorem performAll_singleton (sink : Sink) (move : Move) (c : Coordinator σ) :
    c.performAll sink [move] = c.perform sink move := by
  simp only [performAll, List.append_nil]
  cases hmove : c.perform sink move with
  | mk outcome deeds state => cases outcome <;> rfl

theorem deeds_performAll (sink : Sink) (moves : List Move) (c : Coordinator σ) :
    (c.performAll sink moves).deeds =
      (c.steps sink moves).flatMap fun entry => (entry.1.perform sink entry.2).deeds := by
  induction moves generalizing c with
  | nil => rfl
  | cons move rest ih =>
    simp only [performAll, steps]
    rw [List.flatMap_cons]
    cases (c.perform sink move).outcome with
    | error e => exact (List.append_nil _).symm
    | ok u =>
      simp only
      rw [ih]

/-- What a run does is what its moves do, one after the other. -/
theorem deeds_run (sink : Sink) (calls : List (Circumstances σ × Call)) (c : Coordinator σ) :
    (c.run sink calls).deeds =
      (c.runSteps sink calls).flatMap fun entry => (entry.1.perform sink entry.2).deeds := by
  induction calls generalizing c with
  | nil => rfl
  | cons entry rest ih =>
    obtain ⟨around, call⟩ := entry
    simp only [run, runSteps]
    rw [List.flatMap_append, deeds_performAll, ih]

/-- Accepting a batch is making its moves, whatever has been summed up before. -/
theorem acceptFrom_eq (sink : Sink) (summary : Summary) (records : List Record)
    (c : Coordinator σ) :
    ((c.acceptFrom sink summary records).1.map fun _ => ()) =
        (c.performAll sink (sink.moves records)).outcome ∧
      (c.acceptFrom sink summary records).2 = (c.performAll sink (sink.moves records)).state := by
  induction records generalizing summary c with
  | nil => exact ⟨rfl, rfl⟩
  | cons record rest ih =>
    unfold acceptFrom Sink.moves
    cases sink.codec.encode record with
    | error fault =>
      cases sink.policy with
      | abort => exact ⟨rfl, rfl⟩
      | skip => exact ih (summary.refuse 1) (c.refuse 1)
    | ok bytes =>
      simp only [performAll, perform]
      cases c.flushWhen sink sink.limits.shouldFlush with
      | mk outcome cut =>
        cases outcome with
        | error e => exact ⟨rfl, rfl⟩
        | ok flushed =>
          exact ih ((summary.cut flushed).add (cut.add sink bytes).1) (cut.add sink bytes).2

/-- A call is the run of its moves. -/
theorem call_eq (sink : Sink) (c : Coordinator σ) (call : Call) :
    c.call sink call = ((c.performAll sink (call.moves sink)).outcome,
      (c.performAll sink (call.moves sink)).state) := by
  cases call with
  | accept batch =>
    obtain ⟨ho, hs⟩ := acceptFrom_eq sink {} batch c
    exact Prod.ext ho hs
  | flushExpired =>
    simp only [Coordinator.call, Coordinator.flushExpired, Call.moves, performAll, perform]
    cases c.flushWhen sink sink.limits.isExpired with
    | mk outcome next => cases outcome <;> rfl
  | shutdown =>
    simp only [Coordinator.call, Coordinator.shutdown, Call.moves, performAll, perform]
    cases c.flushWhen sink fun _ => true with
    | mk outcome next => cases outcome <;> rfl

/-! ## Surroundings that change within a call -/

/-- Makes moves up to the first that fails, each in the surroundings that its number
brings. -/
def performAmid (sink : Sink) (around : Nat → Option (Circumstances σ)) :
    List Move → Coordinator σ → Course σ
  | [], c => ⟨.ok (), [], c⟩
  | move :: rest, c =>
    let first := (c.amid? (around 0)).perform sink move
    match first.outcome with
    | .error e => ⟨.error e, first.deeds, first.state⟩
    | .ok () =>
      let later := performAmid sink (fun n => around (n + 1)) rest first.state
      ⟨later.outcome, first.deeds ++ later.deeds, later.state⟩

/-- Answers calls one after the other.  The first surroundings of a call are those that it
begins in, and each of the others are those of one of its moves. -/
def runAmid (sink : Sink) :
    List ((Nat → Option (Circumstances σ)) × Call) → Coordinator σ → History σ
  | [], c => ⟨[], [], c⟩
  | (around, call) :: rest, c =>
    let course := (c.amid? (around 0)).performAmid sink (fun n => around (n + 1))
      (call.moves sink)
    let later := runAmid sink rest course.state
    ⟨course.outcome :: later.outcomes, course.deeds ++ later.deeds, later.final⟩

/-- Surroundings that a call begins in, and that stay. -/
def throughout (around : Circumstances σ) : Nat → Option (Circumstances σ)
  | 0 => some around
  | _ + 1 => none

/-- Calls that do not see their surroundings change. -/
def settled (calls : List (Circumstances σ × Call)) :
    List ((Nat → Option (Circumstances σ)) × Call) :=
  calls.map fun entry => (throughout entry.1, entry.2)

theorem performAmid_none (sink : Sink) (moves : List Move) (c : Coordinator σ) :
    c.performAmid sink (fun _ => none) moves = c.performAll sink moves := by
  induction moves generalizing c with
  | nil => rfl
  | cons move rest ih =>
    simp only [performAmid, performAll, amid?]
    cases (c.perform sink move).outcome with
    | error e => rfl
    | ok u => simp only [ih]

/-- Where no call sees its surroundings change these are the runs of before. -/
theorem runAmid_settled (sink : Sink) (calls : List (Circumstances σ × Call))
    (c : Coordinator σ) : c.runAmid sink (settled calls) = c.run sink calls := by
  induction calls generalizing c with
  | nil => rfl
  | cons entry rest ih =>
    obtain ⟨around, call⟩ := entry
    have hmoves := performAmid_none sink (call.moves sink) (c.amid around)
    have hrest : runAmid sink (rest.map fun entry => (throughout entry.1, entry.2)) = _ :=
      funext ih
    simp only [settled, List.map_cons, runAmid, run, throughout, amid?, hmoves, call_eq, hrest]

/-! ## Invariants of runs -/

section Invariants

variable {sink : Sink} (Inv : List Deed → Coordinator σ → Prop)

/-- What every move and every change of the surroundings preserves, moves preserve that see
these changes, whether they fail or not. -/
theorem performAmid_invariant
    (step : ∀ deeds c move, Inv deeds c →
      Inv (deeds ++ (c.perform sink move).deeds) (c.perform sink move).state)
    (around : Nat → Option (Circumstances σ))
    (shift : ∀ n deeds c, Inv deeds c → Inv deeds (c.amid? (around n)))
    (moves : List Move) {deeds : List Deed} {c : Coordinator σ} (h : Inv deeds c) :
    Inv (deeds ++ (c.performAmid sink around moves).deeds)
      (c.performAmid sink around moves).state := by
  induction moves generalizing around deeds c with
  | nil => simpa [performAmid] using h
  | cons move rest ih =>
    have hmove := step deeds _ move (shift 0 deeds c h)
    simp only [performAmid]
    cases ((c.amid? (around 0)).perform sink move).outcome with
    | error e => exact hmove
    | ok u =>
      simp only
      rw [← List.append_assoc]
      exact ih _ (fun n => shift (n + 1)) hmove

theorem performAll_invariant
    (step : ∀ deeds c move, Inv deeds c →
      Inv (deeds ++ (c.perform sink move).deeds) (c.perform sink move).state)
    (moves : List Move) {deeds : List Deed} {c : Coordinator σ} (h : Inv deeds c) :
    Inv (deeds ++ (c.performAll sink moves).deeds) (c.performAll sink moves).state := by
  rw [← performAmid_none]
  exact performAmid_invariant Inv step (fun _ => none) (fun _ _ _ h => h) moves h

/-- What every move and every change of the surroundings preserves holds after any calls,
wherever the surroundings change. -/
theorem runAmid_invariant
    (step : ∀ deeds c move, Inv deeds c →
      Inv (deeds ++ (c.perform sink move).deeds) (c.perform sink move).state)
    (shift : ∀ deeds c around, Inv deeds c → Inv deeds (c.amid around))
    (calls : List ((Nat → Option (Circumstances σ)) × Call)) {deeds : List Deed}
    {c : Coordinator σ} (h : Inv deeds c) :
    Inv (deeds ++ (c.runAmid sink calls).deeds) (c.runAmid sink calls).final := by
  have hshift (around : Option (Circumstances σ)) (deeds : List Deed) (c : Coordinator σ)
      (hc : Inv deeds c) : Inv deeds (c.amid? around) := by
    cases around with
    | none => exact hc
    | some around => exact shift deeds c around hc
  induction calls generalizing deeds c with
  | nil => simpa [runAmid] using h
  | cons entry rest ih =>
    obtain ⟨around, call⟩ := entry
    have hcall := performAmid_invariant Inv step (fun n => around (n + 1))
      (fun n => hshift (around (n + 1))) (call.moves sink) (hshift (around 0) deeds c h)
    simp only [runAmid]
    rw [← List.append_assoc]
    exact ih hcall

theorem run_invariant
    (step : ∀ deeds c move, Inv deeds c →
      Inv (deeds ++ (c.perform sink move).deeds) (c.perform sink move).state)
    (shift : ∀ deeds c around, Inv deeds c → Inv deeds (c.amid around))
    (calls : List (Circumstances σ × Call)) {deeds : List Deed} {c : Coordinator σ}
    (h : Inv deeds c) :
    Inv (deeds ++ (c.run sink calls).deeds) (c.run sink calls).final := by
  rw [← runAmid_settled]
  exact runAmid_invariant Inv step shift (settled calls) h

end Invariants

end Coordinator

end RecordArchive
