import RecordArchive.Time.Duration

/-!
# The clock of a run

A clock shows the time since the start of a run, and knows at which moment the
run is cancelled, if ever.  From that moment on it counts as cancelled.  A pause
ends early when the moment of cancellation comes before its end.
-/

namespace RecordArchive

structure Clock where
  now : Duration := .zero
  cancelAt : Option Duration := none
  deriving DecidableEq, Repr

namespace Clock

def isCancelled (c : Clock) : Bool := c.cancelAt.any (· ≤ c.now)

/-- The clock a while later. -/
def advance (c : Clock) (d : Duration) : Clock := { c with now := c.now + d }

/-- Cancels the run a while from now, unless that happens sooner already. -/
def cancelAfter (c : Clock) (d : Duration) : Clock :=
  let moment := c.now + d
  { c with cancelAt := some (match c.cancelAt with
      | some earlier => if earlier ≤ moment then earlier else moment
      | none => moment) }

/-- Waits for `d`, or until the run is cancelled.  Its timer goes off on a whole
millisecond.  Answers whether the pause was cut short. -/
def pause (c : Clock) (d : Duration) : Bool × Clock :=
  let finish := (c.now + d).ceilMillisecond
  match c.cancelAt with
  | some moment =>
    if moment ≤ finish then
      (true, { c with now := if moment ≤ c.now then c.now else moment })
    else (false, { c with now := finish })
  | none => (false, { c with now := finish })

end Clock

end RecordArchive
