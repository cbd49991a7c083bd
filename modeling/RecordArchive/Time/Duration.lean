import RecordArchive.Text.Numeral

/-!
# Durations

A span of time in whole nanoseconds.  Clock readings are durations since the
start of a run, so that ages and deadlines are differences and sums.
-/

namespace RecordArchive

structure Duration where
  nanoseconds : Nat
  deriving DecidableEq, Repr

namespace Duration

def zero : Duration := ⟨0⟩

def ofSeconds (n : Nat) : Duration := ⟨n * 1000000000⟩

def ofMilliseconds (n : Nat) : Duration := ⟨n * 1000000⟩

def ofMicroseconds (n : Nat) : Duration := ⟨n * 1000⟩

instance : Add Duration := ⟨fun a b => ⟨a.nanoseconds + b.nanoseconds⟩⟩

/-- The time from `b` to `a`, and zero when `b` is the later one. -/
instance : Sub Duration := ⟨fun a b => ⟨a.nanoseconds - b.nanoseconds⟩⟩

instance : LE Duration := ⟨fun a b => a.nanoseconds ≤ b.nanoseconds⟩

instance : LT Duration := ⟨fun a b => a.nanoseconds < b.nanoseconds⟩

instance (a b : Duration) : Decidable (a ≤ b) :=
  inferInstanceAs (Decidable (a.nanoseconds ≤ b.nanoseconds))

instance (a b : Duration) : Decidable (a < b) :=
  inferInstanceAs (Decidable (a.nanoseconds < b.nanoseconds))

def seconds (d : Duration) : Nat := d.nanoseconds / 1000000000

/-- Nanoseconds beyond the whole seconds. -/
def subsecond (d : Duration) : Nat := d.nanoseconds % 1000000000

def milliseconds (d : Duration) : Nat := d.nanoseconds / 1000000

def isZero (d : Duration) : Bool := d.nanoseconds == 0

/-- The longest time that can be told with 64 bits for the seconds. -/
def longest : Duration := ⟨(1 <<< 64) * 1000000000 - 1⟩

/-- The next whole millisecond, at which a timer set for `d` goes off. -/
def ceilMillisecond (d : Duration) : Duration :=
  ⟨(d.nanoseconds + 999999) / 1000000 * 1000000⟩

/-- A whole number of milliseconds. -/
def Whole (d : Duration) : Prop := 1000000 ∣ d.nanoseconds

instance (d : Duration) : Decidable d.Whole :=
  inferInstanceAs (Decidable (1000000 ∣ d.nanoseconds))

/-- A whole number and a fraction of `places` digits, without the fraction's
trailing zeros and without the point when nothing is left of it. -/
def decimal (whole fraction places : Nat) : List Char :=
  let kept := ((Text.padded places fraction).reverse.dropWhile (· == '0')).reverse
  Text.digits whole ++ if kept.isEmpty then [] else '.' :: kept

/-- A duration in the largest of the units `s`, `ms`, `µs` and `ns` of which it
holds at least one. -/
def text (d : Duration) : String :=
  let rest := d.subsecond
  String.ofList <|
    if 0 < d.seconds then decimal d.seconds rest 9 ++ ['s']
    else if 1000000 ≤ rest then decimal (rest / 1000000) (rest % 1000000) 6 ++ ['m', 's']
    else if 1000 ≤ rest then decimal (rest / 1000) (rest % 1000) 3 ++ ['µ', 's']
    else Text.digits rest ++ ['n', 's']

@[simp] theorem nanoseconds_add (a b : Duration) :
    (a + b).nanoseconds = a.nanoseconds + b.nanoseconds := rfl

@[simp] theorem nanoseconds_sub (a b : Duration) :
    (a - b).nanoseconds = a.nanoseconds - b.nanoseconds := rfl

theorem le_def (a b : Duration) : a ≤ b ↔ a.nanoseconds ≤ b.nanoseconds := Iff.rfl

theorem lt_def (a b : Duration) : a < b ↔ a.nanoseconds < b.nanoseconds := Iff.rfl

theorem add_sub_cancel_left (a b : Duration) : a + b - a = b :=
  congrArg Duration.mk (Nat.add_sub_cancel_left a.nanoseconds b.nanoseconds)

@[simp] theorem nanoseconds_ofMilliseconds (n : Nat) :
    (ofMilliseconds n).nanoseconds = n * 1000000 := rfl

theorem le_ceilMillisecond (d : Duration) : d ≤ d.ceilMillisecond := by
  show d.nanoseconds ≤ (d.nanoseconds + 999999) / 1000000 * 1000000
  omega

theorem ceilMillisecond_lt (d : Duration) : d.ceilMillisecond < d + .ofMilliseconds 1 := by
  show (d.nanoseconds + 999999) / 1000000 * 1000000 < d.nanoseconds + 1 * 1000000
  omega

theorem whole_ofMilliseconds (n : Nat) : (ofMilliseconds n).Whole := Nat.dvd_mul_left _ _

theorem whole_ceilMillisecond (d : Duration) : d.ceilMillisecond.Whole := Nat.dvd_mul_left _ _

theorem Whole.add {a b : Duration} (ha : a.Whole) (hb : b.Whole) : (a + b).Whole :=
  Nat.dvd_add ha hb

/-- A timer goes off at a whole millisecond as it comes. -/
theorem Whole.ceilMillisecond_eq {d : Duration} (h : d.Whole) : d.ceilMillisecond = d := by
  obtain ⟨count, hcount⟩ := h
  obtain ⟨nanoseconds⟩ := d
  apply congrArg Duration.mk
  simp only at hcount ⊢
  omega

end Duration

end RecordArchive
