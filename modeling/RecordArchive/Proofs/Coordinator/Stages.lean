import RecordArchive.Proofs.Coordinator.Dialogue

/-!
# A call in stages

A call can be suspended wherever it waits: for the end of an append, of an attempt to
upload a buffer, or of the pause after one.  Its stage is what it has in hand at such a
moment and has still to do, and `resume` goes on to the next stage.  What surrounds the
coordinator may change while the call waits.  The main statement is
`exists_attend_eq_reply`: a call that goes on undisturbed from stage to stage ends, and
gives the answer and the coordinator that the call as a whole gives.
-/

namespace RecordArchive

/-- What a call looks at the active buffer for. -/
inductive Purpose
  /-- To append a record of a batch, of which so much has been taken. -/
  | append (summary : Summary) (record : Bytes) (rest : List Record)
  | expire
  | finish

/-- A buffer on its way to the store: what is offered under which name, the attempts that
were made, and how many may follow the next one. -/
structure Shipment where
  buffer : Buffer
  name : ObjectName
  body : Body
  made : Nat
  spare : Nat

/-- Where a call stands. -/
inductive Stage
  /-- It takes the next record of its batch. -/
  | reading (summary : Summary) (rest : List Record)
  /-- It looks whether the active buffer is due. -/
  | checking (purpose : Purpose)
  /-- It has taken the active buffer away and writes the last of it. -/
  | closing (purpose : Purpose) (buffer : Buffer) (name : ObjectName)
  /-- It makes an attempt. -/
  | offering (purpose : Purpose) (shipment : Shipment)
  /-- An attempt has failed, and it pauses. -/
  | resting (purpose : Purpose) (shipment : Shipment)
  /-- It takes the active buffer, or a new one, for a record. -/
  | taking (summary : Summary) (record : Bytes) (rest : List Record)
  /-- It appends a record to the buffer in its hands. -/
  | appending (summary : Summary) (record : Bytes) (rest : List Record) (buffer : Buffer)
  | ended (answer : Answer)

/-- What happens while a call is under way: it goes on, or its surroundings change. -/
inductive Beat (σ : Type)
  | proceed
  | change (around : Circumstances σ)

/-- A call under way, and the coordinator that it works on. -/
structure Underway (σ : Type) where
  stage : Stage
  state : Coordinator σ

/-- The error with which a call was answered. -/
def Answer.failure? : Answer → Option ArchiveError
  | accepted (.error e) | expired (.error e) | ended (.error e) => some e
  | _ => none

namespace Purpose

/-- Whether a buffer is to be retired before the call goes on. -/
def due (sink : Sink) : Purpose → Snapshot → Bool
  | append _ _ _ => sink.limits.shouldFlush
  | expire => sink.limits.isExpired
  | finish => fun _ => true

/-- The answer where an upload was cancelled. -/
def failed (e : ArchiveError) : Purpose → Answer
  | append _ _ _ => .accepted (.error e)
  | expire => .expired (.error e)
  | finish => .ended (.error e)

/-- The stage after the active buffer was looked at, and retired if it was due. -/
def next (flushed : Bool) (totals : Tally) : Purpose → Stage
  | append summary record rest => .taking (summary.cut flushed) record rest
  | expire => .ended (.expired (.ok flushed))
  | finish => .ended (.ended (.ok totals))

/-- A bound on the stages that follow once the active buffer was looked at.  A record
needs two for each attempt at an upload, and five more. -/
def left (sink : Sink) : Purpose → Nat
  | append _ _ rest => rest.length * (2 * sink.retrier.attempts + 5) + 3
  | expire | finish => 0

end Purpose

namespace Stage

/-- The answer, where the call has ended. -/
def answer? : Stage → Option Answer
  | ended answer => some answer
  | _ => none

/-- Why the call has failed. -/
def failure? (stage : Stage) : Option ArchiveError := stage.answer?.bind Answer.failure?

/-- The buffer that the call has in hand. -/
def hand? : Stage → Option Buffer
  | closing _ b _ | appending _ _ _ b => some b
  | offering _ s | resting _ s => some s.buffer
  | _ => none

/-- A bound on the stages that follow. -/
def left (sink : Sink) : Stage → Nat
  | reading _ rest => rest.length * (2 * sink.retrier.attempts + 5) + 1
  | checking purpose => purpose.left sink + 2 * sink.retrier.attempts + 2
  | closing purpose _ _ => purpose.left sink + 2 * sink.retrier.attempts + 1
  | offering purpose s => purpose.left sink + 2 * s.spare + 1
  | resting purpose s => purpose.left sink + 2 * s.spare + 2
  | taking _ _ rest => rest.length * (2 * sink.retrier.attempts + 5) + 3
  | appending _ _ rest _ => rest.length * (2 * sink.retrier.attempts + 5) + 2
  | ended _ => 0

end Stage

/-- Whether a call goes on. -/
def Beat.goesOn {σ : Type} : Beat σ → Bool
  | proceed => true
  | change _ => false

/-- The stage in which a call begins. -/
def Call.enter : Call → Stage
  | accept batch => .reading {} batch
  | flushExpired => .checking .expire
  | shutdown => .checking .finish

namespace World

variable {σ : Type}

/-- A loop of attempts that goes on in a world after so many of them. -/
def progress (w : World σ) (made : Nat) : Retrier.Progress (Uploading σ) :=
  ⟨w.clock, w.fractionsDrawn, made, (w.store, w.puts)⟩

/-- The world that a loop of attempts leaves. -/
def after (w : World σ) (p : Retrier.Progress (Uploading σ)) : World σ :=
  { w with clock := p.clock, store := p.state.1, puts := p.state.2, fractionsDrawn := p.drawn }

/-- The world without what a buffer holds outside memory. -/
def release (b : Buffer) (w : World σ) : World σ := { w with staging := b.discard w.staging }

end World

namespace Coordinator

variable {σ : Type}

/-- Counts an upload that has ended. -/
def settle (b : Buffer) (uploaded : Bool) (c : Coordinator σ) : Coordinator σ :=
  { c with
    world := c.world.release b
    tally := if uploaded then c.tally.flushed b else c.tally.lost b }

/-- Counts a record for which no buffer could be made. -/
def unopened (c : Coordinator σ) : Coordinator σ :=
  { c with tally := { c.tally with
      writeFailures := c.tally.writeFailures + 1
      eventsDropped := c.tally.eventsDropped + 1 } }

/-- Appends a record to a buffer that was taken.  The buffer becomes the active one, or is
abandoned. -/
def receive (b : Buffer) (record : Bytes) (c : Coordinator σ) : Bool × Coordinator σ :=
  match b.append record c.world.staging with
  | (.ok b, staging) =>
    (true, { c with
      current := some b
      world := { c.world with staging := staging }
      tally := { c.tally with eventsAccepted := c.tally.eventsAccepted + 1 } })
  | (.error _, staging) =>
    let tally := c.tally.abandoned b
    (false, { c with
      world := { c.world with staging := b.discard staging }
      tally := { tally with eventsDropped := tally.eventsDropped + 1 } })

end Coordinator

namespace Underway

variable {σ : Type}

section

open Coordinator

/-- An upload has ended, and the call goes on. -/
def settled (purpose : Purpose) (b : Buffer) (uploaded : Bool) (c : Coordinator σ) : Underway σ :=
  ⟨purpose.next true (c.settle b uploaded).tally, c.settle b uploaded⟩

/-- An upload was cancelled, and the call with it. -/
def cancelled (purpose : Purpose) (s : Shipment) (c : Coordinator σ) : Underway σ :=
  ⟨.ended (purpose.failed (.cancelled s.name.key)), { c with world := c.world.release s.buffer }⟩

/-- Looks whether the active buffer is due, and takes it away if it is.  An empty one is
dropped. -/
def check (sink : Sink) (purpose : Purpose) (c : Coordinator σ) : Underway σ :=
  match c.current with
  | none => ⟨purpose.next false c.tally, c⟩
  | some b =>
    if purpose.due sink (b.snapshot c.now) then
      if b.count = 0 then
        ⟨purpose.next true c.tally, { c with current := none, world := c.world.release b }⟩
      else
        ⟨.closing purpose b (c.uploadName sink),
          { c with current := none, world := c.world.drawId.2 }⟩
    else ⟨purpose.next false c.tally, c⟩

/-- Finishes a buffer.  One that cannot be finished is lost without a put. -/
def close (sink : Sink) (purpose : Purpose) (b : Buffer) (name : ObjectName)
    (c : Coordinator σ) : Underway σ :=
  let (finished, staging) := b.finish c.world.staging
  let world := { c.world with staging := staging }
  match finished with
  | .error _ => settled purpose b false { c with world := world }
  | .ok () => ⟨.offering purpose ⟨b, name, world.bodyOf b, 0, sink.retrier.attempts - 1⟩,
      { c with world := world }⟩

/-- Makes an attempt, unless the run has been cancelled. -/
def attempt [ObjectStore σ] (purpose : Purpose) (s : Shipment) (c : Coordinator σ) :
    Underway σ :=
  let p := c.world.progress s.made
  if p.clock.isCancelled then cancelled purpose s c
  else match p.attemptOnce (World.offer s.name s.body) with
    | (.ok (), p) => settled purpose s.buffer true { c with world := c.world.after p }
    | (.error _, p) =>
      match s.spare with
      | 0 => settled purpose s.buffer false { c with world := c.world.after p }
      | spare + 1 => ⟨.resting purpose { s with made := p.tries, spare := spare },
          { c with world := c.world.after p }⟩

/-- Makes a pause, which may be cut short. -/
def rest (sink : Sink) (purpose : Purpose) (s : Shipment) (c : Coordinator σ) : Underway σ :=
  match (c.world.progress s.made).rest sink.retrier c.world.chance.fractions with
  | (true, p) => cancelled purpose s { c with world := c.world.after p }
  | (false, p) => ⟨.offering purpose s, { c with world := c.world.after p }⟩

/-- Takes the next record of a batch, which may have to be refused. -/
def read (sink : Sink) (summary : Summary) (c : Coordinator σ) : List Record → Underway σ
  | [] => ⟨.ended (.accepted (.ok summary)), c⟩
  | record :: rest =>
    match sink.codec.encode record with
    | .error _ =>
      match sink.policy with
      | .abort => ⟨.ended (.accepted (.ok (summary.refuse (rest.length + 1)))),
          c.refuse (rest.length + 1)⟩
      | .skip => ⟨.reading (summary.refuse 1) rest, c.refuse 1⟩
    | .ok bytes => ⟨.checking (.append summary bytes rest), c⟩

/-- Takes a buffer for a record, which is dropped where there is none. -/
def take (sink : Sink) (summary : Summary) (record : Bytes) (rest : List Record)
    (c : Coordinator σ) : Underway σ :=
  match c.takeBuffer sink with
  | (.error _, c) => ⟨.reading (summary.add false) rest, c.unopened⟩
  | (.ok b, c) => ⟨.appending summary record rest b, c⟩

end

/-- Goes on to the next stage. -/
def resume [ObjectStore σ] (sink : Sink) (u : Underway σ) : Underway σ :=
  match u.stage with
  | .reading summary rest => read sink summary u.state rest
  | .checking purpose => check sink purpose u.state
  | .closing purpose b name => close sink purpose b name u.state
  | .offering purpose s => attempt purpose s u.state
  | .resting purpose s => rest sink purpose s u.state
  | .taking summary record rest => take sink summary record rest u.state
  | .appending summary record rest b =>
    let (appended, c) := u.state.receive b record
    ⟨.reading (summary.add appended) rest, c⟩
  | .ended _ => u

def beat [ObjectStore σ] (sink : Sink) (u : Underway σ) : Beat σ → Underway σ
  | .proceed => u.resume sink
  | .change around => { u with state := u.state.amid around }

/-- A call that has the coordinator to itself. -/
def attend [ObjectStore σ] (sink : Sink) (u : Underway σ) (beats : List (Beat σ)) : Underway σ :=
  beats.foldl (beat sink) u

def start (call : Call) (c : Coordinator σ) : Underway σ := ⟨call.enter, c⟩

/-! ## Every stage is nearer to the end -/

section

variable {sink : Sink}

theorem left_next (purpose : Purpose) (flushed : Bool) (totals : Tally) :
    (purpose.next flushed totals).left sink = purpose.left sink := by
  cases purpose <;> rfl

theorem left_settled (purpose : Purpose) (b : Buffer) (uploaded : Bool) (c : Coordinator σ) :
    (settled purpose b uploaded c).stage.left sink = purpose.left sink :=
  left_next purpose true _

theorem left_check (purpose : Purpose) (c : Coordinator σ) :
    (check sink purpose c).stage.left sink < (Stage.checking purpose).left sink := by
  have hnext (flushed : Bool) :
      (purpose.next flushed c.tally).left sink < (Stage.checking purpose).left sink := by
    rw [left_next, Stage.left]
    omega
  unfold check
  cases c.current with
  | none => exact hnext false
  | some b =>
    simp only
    split
    · split
      · exact hnext true
      · exact Nat.lt_succ_self _
    · exact hnext false

theorem left_close (purpose : Purpose) (b : Buffer) (name : ObjectName)
    (c : Coordinator σ) :
    (close sink purpose b name c).stage.left sink < (Stage.closing purpose b name).left sink := by
  have hpos := sink.retrier.attempts_pos
  unfold close
  cases b.finish c.world.staging with
  | mk finished staging =>
    cases finished with
    | error e =>
      rw [left_settled, Stage.left]
      omega
    | ok u =>
      simp only [Stage.left]
      omega

theorem left_rest (purpose : Purpose) (s : Shipment) (c : Coordinator σ) :
    (rest sink purpose s c).stage.left sink < (Stage.resting purpose s).left sink := by
  unfold rest
  cases (c.world.progress s.made).rest sink.retrier c.world.chance.fractions with
  | mk cut p =>
    cases cut with
    | true => exact Nat.succ_pos _
    | false => exact Nat.lt_succ_self _

theorem left_read (summary : Summary) (records : List Record) (c : Coordinator σ) :
    (read sink summary c records).stage.left sink < (Stage.reading summary records).left sink := by
  cases records with
  | nil => exact Nat.succ_pos _
  | cons record rest =>
    simp only [read]
    cases sink.codec.encode record with
    | error fault =>
      cases sink.policy with
      | abort => exact Nat.succ_pos _
      | skip =>
        simp only [Stage.left, List.length_cons, Nat.succ_mul]
        omega
    | ok bytes =>
      simp only [Stage.left, Purpose.left, List.length_cons, Nat.succ_mul]
      omega

theorem left_take (summary : Summary) (record : Bytes) (records : List Record)
    (c : Coordinator σ) :
    (take sink summary record records c).stage.left sink <
      (Stage.taking summary record records).left sink := by
  unfold take
  cases c.takeBuffer sink with
  | mk taken opened =>
    cases taken with
    | error e => exact Nat.lt_succ_of_lt (Nat.lt_succ_self _)
    | ok b => exact Nat.lt_succ_self _

theorem left_attempt [ObjectStore σ] (purpose : Purpose) (s : Shipment) (c : Coordinator σ) :
    (attempt purpose s c).stage.left sink < (Stage.offering purpose s).left sink := by
  unfold attempt
  simp only
  split
  · exact Nat.succ_pos _
  · cases (c.world.progress s.made).attemptOnce (World.offer s.name s.body) with
    | mk outcome p =>
      cases outcome with
      | ok u =>
        rw [left_settled, Stage.left]
        omega
      | error e =>
        cases hspare : s.spare with
        | zero =>
          rw [left_settled, Stage.left]
          omega
        | succ spare =>
          simp only [Stage.left, hspare]
          omega

theorem left_resume [ObjectStore σ] (sink : Sink) (u : Underway σ) (h : u.stage.answer? = none) :
    (u.resume sink).stage.left sink < u.stage.left sink := by
  obtain ⟨stage, c⟩ := u
  cases stage with
  | reading summary records => exact left_read summary records c
  | checking purpose => exact left_check purpose c
  | closing purpose b name => exact left_close purpose b name c
  | offering purpose s => exact left_attempt purpose s c
  | resting purpose s => exact left_rest purpose s c
  | taking summary record records => exact left_take summary record records c
  | appending summary record records b => exact Nat.lt_succ_self _
  | ended answer => cases h

end

/-! ## What is left of a call -/

section

variable [ObjectStore σ] (sink : Sink)

/-- The rest of a call, once the active buffer was looked at. -/
def carryOn (purpose : Purpose) (outcome : Except ArchiveError Bool) (c : Coordinator σ) :
    Answer × Coordinator σ :=
  match outcome with
  | .error e => (purpose.failed e, c)
  | .ok flushed =>
    match purpose with
    | .append summary record rest =>
      let (appended, c) := c.add sink record
      let (outcome, c) := c.acceptFrom sink ((summary.cut flushed).add appended) rest
      (.accepted outcome, c)
    | .expire => (.expired (.ok flushed), c)
    | .finish => (.ended (.ok c.tally), c)

/-- The rest of a call, once an upload has ended. -/
def conclude (purpose : Purpose) (b : Buffer) (upload : Except ArchiveError Bool × World σ)
    (c : Coordinator σ) : Answer × Coordinator σ :=
  match upload with
  | (.error e, w) => carryOn sink purpose (.error e) { c with world := w }
  | (.ok uploaded, w) => carryOn sink purpose (.ok true)
      { c with world := w, tally := if uploaded then c.tally.flushed b else c.tally.lost b }

/-- The rest of an upload, from some point of its loop of attempts on. -/
def ship (s : Shipment) (p : Retrier.Progress (World.Uploading σ)) (w : World σ) :
    Except ArchiveError Bool × World σ :=
  let (verdict, p) := sink.retrier.loop w.chance.fractions (World.offer s.name s.body)
    (s.spare + 1) p
  (verdict.uploaded s.name.key, (w.after p).release s.buffer)

/-- What a call under way comes to. -/
def complete (u : Underway σ) : Answer × Coordinator σ :=
  let c := u.state
  match u.stage with
  | .reading summary rest =>
    let (outcome, c) := c.acceptFrom sink summary rest
    (.accepted outcome, c)
  | .checking purpose =>
    let (outcome, c) := c.flushWhen sink (purpose.due sink)
    carryOn sink purpose outcome c
  | .closing purpose b name => conclude sink purpose b (c.world.flush sink.retrier name b) c
  | .offering purpose s =>
    conclude sink purpose s.buffer (ship sink s (c.world.progress s.made) c.world) c
  | .resting purpose s =>
    match (c.world.progress s.made).rest sink.retrier c.world.chance.fractions with
    | (true, p) => (purpose.failed (.cancelled s.name.key),
        { c with world := (c.world.after p).release s.buffer })
    | (false, p) => conclude sink purpose s.buffer (ship sink s p c.world) c
  | .taking summary record rest =>
    let (appended, c) := c.add sink record
    let (outcome, c) := c.acceptFrom sink (summary.add appended) rest
    (.accepted outcome, c)
  | .appending summary record rest b =>
    let (appended, c) := c.receive b record
    let (outcome, c) := c.acceptFrom sink (summary.add appended) rest
    (.accepted outcome, c)
  | .ended answer => (answer, c)

variable {sink}

theorem complete_next (purpose : Purpose) (flushed : Bool) (c : Coordinator σ) :
    complete sink ⟨purpose.next flushed c.tally, c⟩ = carryOn sink purpose (.ok flushed) c := by
  cases purpose <;> rfl

theorem complete_settled (purpose : Purpose) (b : Buffer) (uploaded : Bool) (c : Coordinator σ) :
    complete sink (settled purpose b uploaded c) =
      conclude sink purpose b (.ok uploaded, c.world.release b) c :=
  complete_next purpose true (c.settle b uploaded)

theorem complete_read (summary : Summary) (records : List Record) (c : Coordinator σ) :
    complete sink (read sink summary c records) = complete sink ⟨.reading summary records, c⟩ := by
  cases records with
  | nil => rfl
  | cons record rest =>
    simp only [read, complete, Coordinator.acceptFrom]
    cases sink.codec.encode record with
    | error fault => cases sink.policy <;> rfl
    | ok bytes =>
      simp only [Purpose.due]
      cases c.flushWhen sink sink.limits.shouldFlush with
      | mk outcome cut => cases outcome <;> rfl

theorem complete_check (purpose : Purpose) (c : Coordinator σ) :
    complete sink (check sink purpose c) = complete sink ⟨.checking purpose, c⟩ := by
  have hwhole : complete sink ⟨.checking purpose, c⟩ = carryOn sink purpose
      (c.flushWhen sink (purpose.due sink)).1 (c.flushWhen sink (purpose.due sink)).2 := rfl
  rw [hwhole, check]
  rcases c.flushWhen_cases sink (purpose.due sink) with ⟨hdue, hflush⟩ | ⟨b, hcur, hdue, hflush⟩
  · rw [hflush]
    cases hcur : c.current with
    | none => exact complete_next purpose false c
    | some b =>
      simp only [hdue b hcur, Bool.false_eq_true, if_false]
      exact complete_next purpose false c
  · rw [hflush]
    simp only [hcur, hdue, if_true]
    unfold Coordinator.retire
    by_cases hnone : b.count = 0
    · simp only [hnone, if_true]
      exact complete_next purpose true
        ({ c with current := none, world := c.world.release b } : Coordinator σ)
    · simp only [hnone, if_false]
      show conclude sink purpose b (c.world.drawId.2.flush sink.retrier (c.uploadName sink) b) _ = _
      simp only [Coordinator.uploadName]
      cases c.world.drawId.2.flush sink.retrier
          ⟨sink.bucket, sink.namer.key c.world.instant c.world.drawId.1⟩ b with
      | mk outcome world => cases outcome <;> rfl

theorem complete_close (purpose : Purpose) (b : Buffer) (name : ObjectName) (c : Coordinator σ) :
    complete sink (close sink purpose b name c) = complete sink ⟨.closing purpose b name, c⟩ := by
  have hbudget : sink.retrier.attempts - 1 + 1 = sink.retrier.attempts :=
    Nat.sub_add_cancel sink.retrier.attempts_pos
  simp only [close, complete, World.flush]
  cases b.finish c.world.staging with
  | mk finished staging =>
    cases finished with
    | error e => exact complete_settled purpose b false _
    | ok u =>
      simp only [ship, hbudget]
      rfl

/-- The next attempt of an upload, and what is left of it after that. -/
theorem ship_eq (s : Shipment) (p : Retrier.Progress (World.Uploading σ)) (w : World σ) :
    ship sink s p w =
      if p.clock.isCancelled then (.error (.cancelled s.name.key), (w.after p).release s.buffer)
      else match p.attemptOnce (World.offer s.name s.body) with
        | (.ok (), p) => (.ok true, (w.after p).release s.buffer)
        | (.error _, p) =>
          match s.spare with
          | 0 => (.ok false, (w.after p).release s.buffer)
          | spare + 1 =>
            match p.rest sink.retrier w.chance.fractions with
            | (true, p) => (.error (.cancelled s.name.key), (w.after p).release s.buffer)
            | (false, p) => ship sink { s with spare := spare } p w := by
  unfold ship
  rw [Retrier.loop]
  by_cases hcancelled : p.clock.isCancelled = true
  · rw [if_pos hcancelled, if_pos hcancelled]
    rfl
  · rw [if_neg hcancelled, if_neg hcancelled]
    cases p.attemptOnce (World.offer s.name s.body) with
    | mk outcome q =>
      cases outcome with
      | ok u => rfl
      | error e =>
        cases s.spare with
        | zero => rfl
        | succ spare =>
          simp only [Nat.succ_ne_zero, if_false]
          cases q.rest sink.retrier w.chance.fractions with
          | mk cut q => cases cut <;> rfl

theorem complete_attempt (purpose : Purpose) (s : Shipment) (c : Coordinator σ) :
    complete sink (attempt purpose s c) = complete sink ⟨.offering purpose s, c⟩ := by
  have hwhole : complete sink ⟨.offering purpose s, c⟩ =
      conclude sink purpose s.buffer (ship sink s (c.world.progress s.made) c.world) c := rfl
  rw [hwhole, ship_eq, attempt]
  by_cases hcancelled : (c.world.progress s.made).clock.isCancelled = true
  · simp only [hcancelled, if_true]
    rfl
  · simp only [hcancelled, Bool.false_eq_true, if_false]
    cases hattempt : (c.world.progress s.made).attemptOnce (World.offer s.name s.body) with
    | mk outcome p =>
      cases outcome with
      | ok u => exact complete_settled purpose s.buffer true _
      | error e =>
        cases hspare : s.spare with
        | zero => exact complete_settled purpose s.buffer false _
        | succ spare =>
          -- The pause is made in the world that the attempt has left.
          have hback : (c.world.after p).progress p.tries = p := rfl
          simp only [complete, hback]
          show (match p.rest sink.retrier c.world.chance.fractions with
            | (true, _) => _ | (false, _) => _) = _
          cases p.rest sink.retrier c.world.chance.fractions with
          | mk cut q => cases cut <;> rfl

theorem complete_rest (purpose : Purpose) (s : Shipment) (c : Coordinator σ) :
    complete sink (rest sink purpose s c) = complete sink ⟨.resting purpose s, c⟩ := by
  simp only [rest, complete]
  cases hrest : (c.world.progress s.made).rest sink.retrier c.world.chance.fractions with
  | mk cut p =>
    cases cut with
    | true => rfl
    | false =>
      -- A pause makes no attempt.
      have hback : (c.world.after p).progress s.made = p := by
        obtain rfl : ((c.world.progress s.made).rest sink.retrier c.world.chance.fractions).2 = p :=
          congrArg Prod.snd hrest
        rfl
      simp only [hback]
      rfl

theorem complete_take (summary : Summary) (record : Bytes) (records : List Record)
    (c : Coordinator σ) :
    complete sink (take sink summary record records c) =
      complete sink ⟨.taking summary record records, c⟩ := by
  simp only [take, complete, Coordinator.add, Coordinator.append]
  cases c.takeBuffer sink with
  | mk taken opened =>
    cases taken with
    | error e => rfl
    | ok b =>
      simp only [Coordinator.receive]
      cases b.append record opened.world.staging with
      | mk appended staging => cases appended <;> rfl

/-- Going on to the next stage does not change what a call comes to. -/
theorem complete_resume (u : Underway σ) : complete sink (u.resume sink) = complete sink u := by
  obtain ⟨stage, c⟩ := u
  cases stage with
  | reading summary records => exact complete_read summary records c
  | checking purpose => exact complete_check purpose c
  | closing purpose b name => exact complete_close purpose b name c
  | offering purpose s => exact complete_attempt purpose s c
  | resting purpose s => exact complete_rest purpose s c
  | taking summary record records => exact complete_take summary record records c
  | appending summary record records b => rfl
  | ended answer => rfl

theorem complete_start (call : Call) (c : Coordinator σ) :
    complete sink (start call c) = c.reply sink (.call call) := by
  cases call with
  | accept batch => rfl
  | flushExpired =>
    simp only [complete, start, Call.enter, Coordinator.reply, Coordinator.flushExpired]
    show carryOn sink .expire (c.flushWhen sink sink.limits.isExpired).1
      (c.flushWhen sink sink.limits.isExpired).2 = _
    cases c.flushWhen sink sink.limits.isExpired with
    | mk outcome next => cases outcome <;> rfl
  | shutdown =>
    simp only [complete, start, Call.enter, Coordinator.reply, Coordinator.shutdown]
    show carryOn sink .finish (c.flushWhen sink fun _ => true).1
      (c.flushWhen sink fun _ => true).2 = _
    cases c.flushWhen sink fun _ => true with
    | mk outcome next => cases outcome <;> rfl

/-! ## The end of a call -/

/-- Whatever changes around it, a call that goes on often enough ends. -/
theorem ended_of_left_le {u : Underway σ} {beats : List (Beat σ)}
    (h : u.stage.left sink ≤ beats.countP Beat.goesOn) :
    ((u.attend sink beats).stage.answer?).isSome = true := by
  induction beats generalizing u with
  | nil =>
    obtain ⟨stage, c⟩ := u
    cases stage with
    | ended answer => rfl
    | _ =>
      simp only [Stage.left, List.countP_nil] at h
      omega
  | cons beat rest ih =>
    cases beat with
    | change around => exact ih (u := { u with state := u.state.amid around }) h
    | proceed =>
      rw [List.countP_cons_of_pos rfl] at h
      refine ih (u := u.resume sink) ?_
      cases hanswer : u.stage.answer? with
      | none =>
        have hless := left_resume sink u hanswer
        omega
      | some answer =>
        obtain ⟨stage, c⟩ := u
        cases stage with
        | ended answer => exact Nat.zero_le _
        | _ => cases hanswer

theorem complete_attend (sink : Sink) (u : Underway σ) (n : Nat) :
    complete sink (u.attend sink (List.replicate n .proceed)) = complete sink u := by
  induction n generalizing u with
  | zero => rfl
  | succ n ih => exact (ih (u.resume sink)).trans (complete_resume u)

/-- A call that goes on undisturbed ends, and gives the answer and the coordinator that
the call as a whole gives. -/
theorem exists_attend_eq_reply (sink : Sink) (call : Call) (c : Coordinator σ) :
    ∃ n, (start call c).attend sink (List.replicate n .proceed) =
      ⟨.ended (c.reply sink (.call call)).1, (c.reply sink (.call call)).2⟩ := by
  refine ⟨call.enter.left sink, ?_⟩
  have hended : (((start call c).attend sink
      (List.replicate (call.enter.left sink) .proceed)).stage.answer?).isSome = true :=
    ended_of_left_le (by simp [start, List.countP_replicate, Beat.goesOn])
  have hcomplete := complete_attend sink (start call c) (call.enter.left sink)
  rw [← complete_start, ← hcomplete]
  generalize (start call c).attend sink _ = u at hended ⊢
  obtain ⟨stage, next⟩ := u
  cases stage with
  | ended answer => rfl
  | _ => cases hended

theorem reply_of_attend {call : Call} {c next : Coordinator σ} {n : Nat} {answer : Answer}
    (h : (start call c).attend sink (List.replicate n .proceed) = ⟨.ended answer, next⟩) :
    c.reply sink (.call call) = (answer, next) := by
  rw [← complete_start, ← complete_attend sink _ n, h]
  rfl

end

end Underway

end RecordArchive
