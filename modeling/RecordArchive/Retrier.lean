import RecordArchive.Decimal.Binary64
import RecordArchive.Error
import RecordArchive.Time.Clock

/-!
# Bounded retries

An operation is tried until it succeeds or a budget of attempts is spent, with a
pause after every failed attempt but the last.  Cancellation is looked at before
each attempt and during each pause; an attempt that has begun runs to its end.
Pauses may be lengthened by a random part of the delay.

A pause is worked out before it is made, and one that is longer than any duration
cannot be: the loop then breaks down.  `run?` is the loop with that outcome, and
`run` the loop for settings under which no pause is so long.
-/

namespace RecordArchive

/-- A source of random fractions, each given in parts of 2^53. -/
structure Fractions where
  parts : Nat → Nat
  parts_le : ∀ n, parts n ≤ (1 <<< 53)

namespace Fractions

def zero : Fractions := ⟨fun _ => 0, fun _ => Nat.zero_le _⟩

def half : Fractions := ⟨fun _ => 1 <<< 52, fun _ => by decide⟩

end Fractions

/-- How often an operation is tried and how long the pauses are. -/
structure Retrier where
  attempts : Nat
  delay : Duration
  jitter : Binary64
  attempts_pos : 0 < attempts

namespace Retrier

/-- A retrier that tries at least once.  A jitter that is not a positive number
means none. -/
def make (attempts : Nat) (delay : Duration) (jitter : Binary64) : Retrier where
  attempts := max 1 attempts
  delay := delay
  jitter := if jitter.isPositiveFinite then jitter else .zero false
  attempts_pos := Nat.le_max_left 1 attempts

/-- The delay lengthened by a fraction, in parts of 2^53, of its jitter. -/
def pauseFor (r : Retrier) (parts : Nat) : Duration :=
  match r.jitter with
  | .finite false mantissa exponent =>
    let product := (r.delay.nanoseconds * mantissa * parts) <<< exponent.toNat
    ⟨r.delay.nanoseconds + (product >>> (53 + (-exponent).toNat))⟩
  | _ => r.delay

/-- The pause as it is worked out: none where the lengthened delay is longer than any
duration. -/
def pauseFor? (r : Retrier) (parts : Nat) : Option Duration :=
  if r.jitter = .zero false ∨ r.delay.isZero then some r.delay
  else if r.pauseFor parts ≤ .longest then some (r.pauseFor parts)
  else none

/-- What an attempt did: whether it failed, what it left behind, and how long it
took. -/
structure Attempt (σ : Type) where
  outcome : Except StoreError Unit
  state : σ
  took : Duration

/-- A loop of attempts in progress: the clock, the number of fractions drawn,
the number of attempts made, and the state that the operation works on. -/
structure Progress (σ : Type) where
  clock : Clock
  drawn : Nat
  tries : Nat
  state : σ

/-- How a loop of attempts ends. -/
inductive Verdict
  | succeeded
  | exhausted
  | cancelled
  deriving DecidableEq, Repr

variable {σ : Type}

def Progress.attemptOnce (operation : σ → Attempt σ) (p : Progress σ) :
    Except StoreError Unit × Progress σ :=
  let attempt := operation p.state
  (attempt.outcome,
    { p with clock := p.clock.advance attempt.took, tries := p.tries + 1, state := attempt.state })

/-- Makes one pause.  Answers whether it was cut short. -/
def Progress.restFor (p : Progress σ) (pause : Duration) : Bool × Progress σ :=
  let (cut, clock) := p.clock.pause pause
  (cut, { p with clock := clock, drawn := p.drawn + 1 })

def Progress.rest (r : Retrier) (fractions : Fractions) (p : Progress σ) : Bool × Progress σ :=
  p.restFor (r.pauseFor (fractions.parts p.drawn))

def Progress.rest? (r : Retrier) (fractions : Fractions) (p : Progress σ) :
    Option (Bool × Progress σ) :=
  (r.pauseFor? (fractions.parts p.drawn)).map p.restFor

/-- Makes at most `budget` attempts. -/
def loop (r : Retrier) (fractions : Fractions) (operation : σ → Attempt σ) :
    Nat → Progress σ → Verdict × Progress σ
  | 0, p => (.exhausted, p)
  | left + 1, p =>
    if p.clock.isCancelled then (.cancelled, p)
    else match p.attemptOnce operation with
      | (.ok (), p) => (.succeeded, p)
      | (.error _, p) =>
        if left = 0 then (.exhausted, p)
        else match p.rest r fractions with
          | (true, p) => (.cancelled, p)
          | (false, p) => loop r fractions operation left p

def run (r : Retrier) (fractions : Fractions) (operation : σ → Attempt σ) (clock : Clock)
    (drawn : Nat) (state : σ) : Verdict × Progress σ :=
  loop r fractions operation r.attempts ⟨clock, drawn, 0, state⟩

/-- Makes at most `budget` attempts, and breaks down at a pause that cannot be worked
out. -/
def loop? (r : Retrier) (fractions : Fractions) (operation : σ → Attempt σ) :
    Nat → Progress σ → Option (Verdict × Progress σ)
  | 0, p => some (.exhausted, p)
  | left + 1, p =>
    if p.clock.isCancelled then some (.cancelled, p)
    else match p.attemptOnce operation with
      | (.ok (), p) => some (.succeeded, p)
      | (.error _, p) =>
        if left = 0 then some (.exhausted, p)
        else match p.rest? r fractions with
          | none => none
          | some (true, p) => some (.cancelled, p)
          | some (false, p) => loop? r fractions operation left p

def run? (r : Retrier) (fractions : Fractions) (operation : σ → Attempt σ) (clock : Clock)
    (drawn : Nat) (state : σ) : Option (Verdict × Progress σ) :=
  loop? r fractions operation r.attempts ⟨clock, drawn, 0, state⟩

/-- What a verdict on the upload of `key` means to the caller. -/
def Verdict.uploaded (key : String) : Verdict → Except ArchiveError Bool
  | succeeded => .ok true
  | exhausted => .ok false
  | cancelled => .error (.cancelled key)

end Retrier

end RecordArchive
