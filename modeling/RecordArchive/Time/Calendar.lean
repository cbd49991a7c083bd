/-!
# The proleptic Gregorian calendar

Days counted from 1 January 1970 as dates, for every year before and after.  The
computation starts each year in March, so that the leap day is a year's last
day, and works in eras of 400 years, all of which have the same 146097 days.
-/

namespace RecordArchive

structure Date where
  year : Int
  month : Nat
  day : Nat
  deriving DecidableEq, Repr

namespace Date

/-- Days from 1 March of year 0 to 1 January 1970. -/
def marchOrigin : Int := 719468

/-- The date `n` days after 1 January 1970. -/
def ofDays (n : Int) : Date :=
  let shifted := n + marchOrigin
  let era := shifted / 146097
  let dayOfEra := (shifted % 146097).toNat
  let yearOfEra :=
    (dayOfEra - dayOfEra / 1460 + dayOfEra / 36524 - dayOfEra / 146096) / 365
  let dayOfYear := dayOfEra - (365 * yearOfEra + yearOfEra / 4 - yearOfEra / 100)
  let monthFromMarch := (5 * dayOfYear + 2) / 153
  let month := if monthFromMarch < 10 then monthFromMarch + 3 else monthFromMarch - 9
  let year := era * 400 + yearOfEra
  { year := if month ≤ 2 then year + 1 else year
    month := month
    day := dayOfYear - (153 * monthFromMarch + 2) / 5 + 1 }

def isLeapYear (year : Int) : Bool :=
  year % 4 == 0 && (year % 100 != 0 || year % 400 == 0)

/-- Days of a common year before the first of a month. -/
def daysBeforeMonth (month : Nat) : Nat :=
  match month with
  | 1 => 0
  | 2 => 31
  | 3 => 59
  | 4 => 90
  | 5 => 120
  | 6 => 151
  | 7 => 181
  | 8 => 212
  | 9 => 243
  | 10 => 273
  | 11 => 304
  | _ => 334

def dayOfYear (d : Date) : Nat :=
  daysBeforeMonth d.month + d.day + if isLeapYear d.year && decide (2 < d.month) then 1 else 0

def monthNames : List String :=
  ["January", "February", "March", "April", "May", "June", "July", "August", "September",
    "October", "November", "December"]

def monthName (d : Date) : String := monthNames.getD (d.month - 1) ""

end Date

/-- English names of the days of the week, from Sunday. -/
def weekdayNames : List String :=
  ["Sunday", "Monday", "Tuesday", "Wednesday", "Thursday", "Friday", "Saturday"]

/-- The name of the day `n` days after 1 January 1970, which was a Thursday. -/
def weekdayName (n : Int) : String := weekdayNames.getD ((n + 4) % 7).toNat ""

/-- The first three letters of a name. -/
def abbreviation (name : String) : String := String.ofList (name.toList.take 3)

end RecordArchive
