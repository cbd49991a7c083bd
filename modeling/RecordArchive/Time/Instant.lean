import RecordArchive.Time.Calendar
import RecordArchive.Time.Duration

/-!
# Instants

A point in time as seconds and nanoseconds since the Unix epoch, in UTC.  A leap
second is the second before it with a billion or more nanoseconds, so it is
written as second 59 and lies later than every other moment of that second.
-/

namespace RecordArchive

structure Instant where
  seconds : Int
  nanoseconds : Nat
  deriving DecidableEq, Repr

namespace Instant

/-- The first second of year -262143. -/
def firstSecond : Int := -8334601228800

/-- The last second of year 262142. -/
def lastSecond : Int := 8210266876799

/-- An instant within the years -262143 to 262142.  More than 999999999
nanoseconds are a leap second and belong to second 59 of a minute only. -/
def ofUnix? (seconds : Int) (nanoseconds : Nat) : Option Instant :=
  if firstSecond ≤ seconds ∧ seconds ≤ lastSecond ∧ nanoseconds < 2000000000 ∧
      (nanoseconds < 1000000000 ∨ seconds % 60 = 59) then
    some ⟨seconds, nanoseconds⟩
  else none

/-- Days since 1 January 1970. -/
def dayNumber (t : Instant) : Int := t.seconds / 86400

def date (t : Instant) : Date := Date.ofDays t.dayNumber

def secondOfDay (t : Instant) : Nat := (t.seconds % 86400).toNat

def hour (t : Instant) : Nat := t.secondOfDay / 3600

def minute (t : Instant) : Nat := t.secondOfDay / 60 % 60

def second (t : Instant) : Nat := t.secondOfDay % 60

/-- The hour on a twelve-hour clock, from 1 to 12. -/
def hourOfHalfDay (t : Instant) : Nat := if t.hour % 12 = 0 then 12 else t.hour % 12

def isMorning (t : Instant) : Bool := decide (t.hour < 12)

/-- Milliseconds since the epoch, rounded down. -/
def milliseconds (t : Instant) : Int := t.seconds * 1000 + (t.nanoseconds / 1000000 : Nat)

def after (t : Instant) (d : Duration) : Instant :=
  let total := t.nanoseconds + d.nanoseconds
  ⟨t.seconds + (total / 1000000000 : Nat), total % 1000000000⟩

end Instant

end RecordArchive
