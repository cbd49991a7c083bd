import RecordArchive.Decimal.Binary64

/-!
# Shortest decimals

The decimal with the fewest digits that reads back as a given binary number, and
of those the nearest to it.  The numbers that read back form an interval around
the value, up to half way to its neighbours; the ends belong to it when the
mantissa is even.  For one digit, two, and so on, the two points of that decimal
grid next to the value are tested against the interval.
-/

namespace RecordArchive

/-- The decimal number `significand * 10 ^ exponent`. -/
structure Decimal where
  significand : Nat
  exponent : Int
  deriving DecidableEq, Repr

namespace Decimal

/-- The positive value `point * unitNumerator / unitDenominator` with the ends of
its interval, in the same unit. -/
structure Interval where
  low : Nat
  point : Nat
  high : Nat
  unitNumerator : Nat
  unitDenominator : Nat
  closed : Bool

/-- The interval of numbers that round to `mantissa * 2 ^ exponent`, in quarters
of the last place.  Below a power of two the neighbour is half as far away. -/
def interval (mantissa : Nat) (exponent : Int) : Interval :=
  let unit := exponent - 2
  let isBoundary := decide (mantissa = Binary64.leastMantissa ∧ -1074 < exponent)
  { low := if isBoundary then 4 * mantissa - 1 else 4 * mantissa - 2
    point := 4 * mantissa
    high := 4 * mantissa + 2
    unitNumerator := if 0 ≤ unit then 1 <<< unit.toNat else 1
    unitDenominator := if 0 ≤ unit then 1 else 1 <<< (-unit).toNat
    closed := mantissa % 2 == 0 }

/-- Whether the value is at least `10 ^ k`. -/
def Interval.reaches (i : Interval) (k : Int) : Bool :=
  if 0 ≤ k then decide (Nat.pow 10 k.toNat * i.unitDenominator ≤ i.point * i.unitNumerator)
  else decide (i.unitDenominator ≤ i.point * i.unitNumerator * Nat.pow 10 (-k).toNat)

/-- The greatest `k` with `10 ^ k` at most the value.  The logarithm to base two
gives it up to one. -/
def Interval.magnitude (i : Interval) : Int :=
  let log2 : Int :=
    (Nat.log2 (i.point * i.unitNumerator) : Int) - Nat.log2 i.unitDenominator
  let estimate := log2 * 30103 / 100000
  if i.reaches (estimate + 1) then estimate + 1
  else if i.reaches estimate then estimate else estimate - 1

/-- The point of the grid `10 ^ k` that lies in the interval next to the value. -/
def Interval.onGrid? (i : Interval) (k : Int) : Option Decimal :=
  let stretch := i.unitNumerator * if 0 ≤ k then 1 else Nat.pow 10 (-k).toNat
  let step := i.unitDenominator * if 0 ≤ k then Nat.pow 10 k.toNat else 1
  let below := i.point * stretch / step
  let inside (n : Nat) : Bool :=
    if i.closed then decide (i.low * stretch ≤ n * step) && decide (n * step ≤ i.high * stretch)
    else decide (i.low * stretch < n * step) && decide (n * step < i.high * stretch)
  let rest := i.point * stretch - below * step
  let above := (below + 1) * step - i.point * stretch
  let pick (n : Nat) : Option Decimal := some ⟨n, k⟩
  match inside below, inside (below + 1) with
  | true, true =>
    if rest < above then pick below
    else if above < rest then pick (below + 1)
    else if below % 2 = 0 then pick below else pick (below + 1)
  | true, false => pick below
  | false, true => pick (below + 1)
  | false, false => none

/-- Drops the significand's trailing zeros, at most `fuel` of them. -/
def normalize : Nat → Decimal → Decimal
  | 0, d => d
  | fuel + 1, d =>
    if d.significand ≠ 0 ∧ d.significand % 10 = 0 then
      normalize fuel ⟨d.significand / 10, d.exponent + 1⟩
    else d

/-- The shortest decimal that reads back as `mantissa * 2 ^ exponent`.  Seventeen
digits are always enough. -/
def shortest (mantissa : Nat) (exponent : Int) : Decimal :=
  if mantissa = 0 then ⟨0, 0⟩
  else
    let i := interval mantissa exponent
    let top := i.magnitude
    let found := (List.range 17).findSome? fun (n : Nat) => i.onGrid? (top - n)
    normalize 20 (found.getD ⟨0, 0⟩)

end Decimal

end RecordArchive
