import RecordArchive.Text.Numeral

/-!
# Binary64 numbers

The floating-point numbers of 64 bits as exact values: a sign, a mantissa below
2^53 and a power of two.  Every operation works on whole numbers and rounds once,
to the nearest number and on a tie to the one with an even mantissa.
-/

namespace RecordArchive

/-- A number that is finite, infinite or not a number.  A finite one is
`mantissa * 2 ^ exponent`; its mantissa is at least 2^52 unless the exponent is
the least one, -1074. -/
inductive Binary64
  | finite (negative : Bool) (mantissa : Nat) (exponent : Int)
  | infinite (negative : Bool)
  | nan
  deriving DecidableEq, Repr

namespace Binary64

/-- 2^52, the least mantissa above the least exponent. -/
def leastMantissa : Nat := 1 <<< 52

def zero (negative : Bool) : Binary64 := finite negative 0 (-1074)

/-- A quotient rounded to the nearest whole number, and to the even one on a tie. -/
def roundQuotient (numerator denominator : Nat) : Nat :=
  let whole := numerator / denominator
  let rest := numerator % denominator
  if 2 * rest < denominator then whole
  else if denominator < 2 * rest then whole + 1
  else if whole % 2 = 0 then whole else whole + 1

/-- The number `numerator * 2 ^ -shift / denominator`, rounded to a whole one. -/
def scaledQuotient (numerator denominator : Nat) (shift : Int) : Nat :=
  if 0 ≤ shift then roundQuotient numerator (denominator <<< shift.toNat)
  else roundQuotient (numerator <<< (-shift).toNat) denominator

/-- The number nearest to a quotient of whole numbers. -/
def ofQuotient (negative : Bool) (numerator denominator : Nat) : Binary64 :=
  if numerator = 0 ∨ denominator = 0 then zero negative
  else
    let estimate : Int := (Nat.log2 numerator : Int) - Nat.log2 denominator
    let tooHigh : Bool :=
      if 0 ≤ estimate then numerator < (denominator <<< estimate.toNat)
      else (numerator <<< (-estimate).toNat) < denominator
    let magnitude := if tooHigh then estimate - 1 else estimate
    let exponent := max (magnitude - 52) (-1074)
    let mantissa := scaledQuotient numerator denominator exponent
    let (mantissa, exponent) :=
      if mantissa = 2 * leastMantissa then (leastMantissa, exponent + 1)
      else (mantissa, exponent)
    if 971 < exponent then infinite negative else finite negative mantissa exponent

def ofInt (n : Int) : Binary64 := ofQuotient (decide (n < 0)) n.natAbs 1

/-- The number nearest to `significand * 10 ^ exponent`.  An exponent that is out
of all reach is settled without computing the power. -/
def ofDecimal (negative : Bool) (significand : Nat) (exponent : Int) : Binary64 :=
  let magnitude : Int := (Text.digits significand).length + exponent
  if significand = 0 ∨ magnitude < -400 then zero negative
  else if 400 < magnitude then infinite negative
  else if 0 ≤ exponent then ofQuotient negative (significand * Nat.pow 10 exponent.toNat) 1
  else ofQuotient negative significand (Nat.pow 10 (-exponent).toNat)

/-- The number nearest to the one written with the digits `whole`, a point, the
digits `fraction` and a power of ten. -/
def ofDigits (negative : Bool) (whole fraction : List Char) (power : Int) : Binary64 :=
  ofDecimal negative (Text.natOfDigits (whole ++ fraction)) (power - fraction.length)

/-- The product with a whole number, rounded. -/
def scale (x : Binary64) (n : Nat) : Binary64 :=
  match x with
  | finite negative mantissa exponent =>
    if 0 ≤ exponent then ofQuotient negative ((mantissa * n) <<< exponent.toNat) 1
    else ofQuotient negative (mantissa * n) (1 <<< (-exponent).toNat)
  | infinite negative => if n = 0 then nan else infinite negative
  | nan => nan

/-- The whole part of a number that is not negative, and at most `limit`. -/
def truncate (limit : Nat) : Binary64 → Nat
  | finite true _ _ => 0
  | finite false mantissa exponent =>
    min limit <|
      if 0 ≤ exponent then mantissa <<< exponent.toNat else mantissa >>> (-exponent).toNat
  | infinite negative => if negative then 0 else limit
  | nan => 0

/-- Whether a number lies between zero and one, both included. -/
def inUnitInterval : Binary64 → Bool
  | finite negative mantissa exponent =>
    if negative then mantissa == 0
    else if 0 ≤ exponent then decide ((mantissa <<< exponent.toNat) ≤ 1)
    else decide (mantissa ≤ (1 <<< (-exponent).toNat))
  | _ => false

def isPositiveFinite : Binary64 → Bool
  | finite negative mantissa _ => !negative && mantissa != 0
  | _ => false

def isFinite : Binary64 → Bool
  | finite _ _ _ => true
  | _ => false

end Binary64

end RecordArchive
