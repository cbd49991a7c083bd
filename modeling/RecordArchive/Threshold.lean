import RecordArchive.ByteSize
import RecordArchive.Error

/-!
# Limits of a buffer

A buffer is flushed before a record is admitted when it already holds as many
records as it may, when it is larger than it may be, or when it has grown too
old.  The limit on records is one past the count that is checked, so a buffer
never exceeds it; the other two are exceeded by at most one record.
-/

namespace RecordArchive

/-- How the limits are given in the settings. -/
structure LimitSettings where
  eventCount : Nat := 0
  maximumSize : Nat := 50000000
  collectSeconds : Nat
  deriving DecidableEq, Repr

/-- The limits of every buffer.  No records at most means that records are not
counted. -/
structure Limits where
  events : Nat
  bytes : Nat
  age : Duration
  bytes_pos : 0 < bytes
  age_pos : 0 < age.nanoseconds
  deriving DecidableEq, Repr

/-- A reading of a buffer. -/
structure Snapshot where
  count : Nat
  size : Nat
  age : Duration
  deriving DecidableEq, Repr

namespace Limits

/-- The greatest age that the settings may ask for, in seconds. -/
def greatestCollectSeconds : Nat := 3600

/-- Limits, unless a size or an age of zero is asked for. -/
def make (events bytes : Nat) (age : Duration) : Except ArchiveError Limits :=
  if hb : 0 < bytes then
    if ha : 0 < age.nanoseconds then .ok ⟨events, bytes, age, hb, ha⟩
    else .error (.configuration "threshold event_collect must be greater than zero")
  else .error (.configuration "threshold maximum_size must be greater than zero")

def ofSettings (settings : LimitSettings) : Except ArchiveError Limits :=
  if greatestCollectSeconds < settings.collectSeconds then
    .error (.configuration ("threshold event_collect_secs must be at most " ++
      toString greatestCollectSeconds ++ ", got " ++ toString settings.collectSeconds))
  else make settings.eventCount settings.maximumSize (.ofSeconds settings.collectSeconds)

def countsEvents (limits : Limits) : Bool := 0 < limits.events

/-- Whether a buffer is too old, with or without another record. -/
def isExpired (limits : Limits) (s : Snapshot) : Bool := limits.age < s.age

/-- Whether a buffer has to be flushed before it may admit another record. -/
def shouldFlush (limits : Limits) (s : Snapshot) : Bool :=
  (limits.countsEvents && limits.events < s.count + 1) || limits.isExpired s ||
    limits.bytes < s.size

/-- A buffer admits a record exactly when it is within all three limits. -/
theorem shouldFlush_eq_false_iff (limits : Limits) (s : Snapshot) :
    limits.shouldFlush s = false ↔
      (0 < limits.events → s.count < limits.events) ∧ s.age ≤ limits.age ∧
        s.size ≤ limits.bytes := by
  simp only [shouldFlush, countsEvents, isExpired, Bool.or_eq_false_iff, Bool.and_eq_false_imp,
    decide_eq_true_eq, decide_eq_false_iff_not, Duration.lt_def, Duration.le_def]
  omega

end Limits

end RecordArchive
