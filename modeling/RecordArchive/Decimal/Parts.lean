import RecordArchive.Decimal.Binary64

/-!
# Numbers read in parts

A decimal number is read as a significand of at most 64 bits and a power of ten.
Digits for which the significand has no room only count for the power.  The
significand, the power and their product or quotient are rounded one after the
other, so the number that is read need not be the one that is nearest to what was
written, and one close to the greatest number may turn out to be out of range.
-/

namespace RecordArchive.Binary64

/-- The number that a power of ten is rounded to. -/
def tenTo (n : Nat) : Binary64 := ofQuotient false (Nat.pow 10 n) 1

/-- The number nearest to `numerator * 2 ^ shift / denominator`. -/
def ofShifted (negative : Bool) (numerator denominator : Nat) (shift : Int) : Binary64 :=
  if 0 ≤ shift then ofQuotient negative (numerator <<< shift.toNat) denominator
  else ofQuotient negative numerator (denominator <<< (-shift).toNat)

/-- The product with a power of ten. -/
def timesTenTo (x : Binary64) (n : Nat) : Binary64 :=
  match x, tenTo n with
  | finite negative mantissa exponent, finite _ mantissa' exponent' =>
    ofShifted negative (mantissa * mantissa') 1 (exponent + exponent')
  | x, _ => x

/-- The quotient by a power of ten. -/
def overTenTo (x : Binary64) (n : Nat) : Binary64 :=
  match x, tenTo n with
  | finite negative mantissa exponent, finite _ mantissa' exponent' =>
    ofShifted negative mantissa mantissa' (exponent - exponent')
  | x, _ => x

/-- The greatest power of ten that is a number. -/
def greatestPower : Nat := 308

/-- The quotient by a power of ten, which is divided by in steps where it is too great
to be a number. -/
def lower : Nat → Binary64 → Nat → Binary64
  | 0, x, n => x.overTenTo n
  | steps + 1, x, n => lower steps (x.overTenTo greatestPower) (n - greatestPower)

/-- A significand times a power of ten.  One that is out of range is refused.  Of a
significand of 64 bits nothing is left after two of the steps by which it is lowered. -/
def ofParts? (negative : Bool) (significand : Nat) (power : Int) : Option Binary64 :=
  let x := ofQuotient negative significand 1
  if significand = 0 ∨ power < -4 * greatestPower then some (zero negative)
  else if power < 0 then
    some (lower (((-power).toNat - 1) / greatestPower) x (-power).toNat)
  else if greatestPower < power then none
  else
    let product := x.timesTenTo power.toNat
    if product.isFinite then some product else none

/-- Appends digits to a significand up to the first for which it has no room.
Answers how many digits are left, too. -/
def gather (significand : Nat) : List Char → Nat × Nat
  | [] => (significand, 0)
  | d :: rest =>
    let next := significand * 10 + (Text.digitValue? d).getD 0
    if next < 1 <<< 64 then gather next rest else (significand, rest.length + 1)

/-- The number that is read for the digits `whole`, a point, the digits `fraction`
and a power of ten. -/
def read? (negative : Bool) (whole fraction : List Char) (power : Int) : Option Binary64 :=
  let (significand, extra) := gather 0 whole
  let (significand, unused) := gather significand fraction
  ofParts? negative significand (power + extra - (fraction.length - unused : Nat))

end RecordArchive.Binary64
