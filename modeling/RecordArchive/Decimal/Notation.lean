import RecordArchive.Decimal.Shortest
import RecordArchive.Text.Numeral

/-!
# Notations for decimals

How the digits of a decimal are laid out, once they are known.  A layout says
for which exponents a number is written without a power of ten, and how a number
without a fraction ends.
-/

namespace RecordArchive

/-- The decisions of a notation. -/
structure Layout where
  /-- The least exponent of the first digit that is written positionally. -/
  least : Option Int
  /-- The greatest exponent of the first digit that is written positionally. -/
  greatest : Option Int
  /-- What follows a whole number that is written positionally. -/
  wholeEnding : List Char
  deriving Repr

namespace Layout

/-- The notation of JSON documents: positional from 1e-5 up to, not including,
1e16, always with a fraction there, and with a signed power of ten elsewhere. -/
def json : Layout := ⟨some (-5), some 15, ['.', '0']⟩

/-- The notation of messages: always positional, and whole numbers without a
fraction. -/
def message : Layout := ⟨none, none, []⟩

/-- Digits with the point after the first `point` of them. -/
def positional (layout : Layout) (digits : List Char) (point : Int) : List Char :=
  if point ≤ 0 then '0' :: '.' :: List.replicate (-point).toNat '0' ++ digits
  else if point < digits.length then
    digits.take point.toNat ++ '.' :: digits.drop point.toNat
  else digits ++ List.replicate (point.toNat - digits.length) '0' ++ layout.wholeEnding

/-- Digits with the point after the first, and a power of ten. -/
def scientific (digits : List Char) (power : Int) : List Char :=
  let mark := 'e' :: (if power < 0 then '-' else '+') :: Text.digits power.natAbs
  match digits with
  | [] => mark
  | [d] => d :: mark
  | d :: more => d :: '.' :: more ++ mark

def render (layout : Layout) (d : Decimal) : List Char :=
  if d.significand = 0 then '0' :: layout.wholeEnding
  else
    let digits := Text.digits d.significand
    let power := d.exponent + digits.length - 1
    if layout.least.all (· ≤ power) && layout.greatest.all (power ≤ ·) then
      layout.positional digits (power + 1)
    else scientific digits power

end Layout

/-- The text of a binary number: its shortest decimal in the given layout. -/
def Binary64.render (layout : Layout) : Binary64 → List Char
  | finite negative mantissa exponent =>
    (if negative then ['-'] else []) ++ layout.render (Decimal.shortest mantissa exponent)
  | infinite negative => (if negative then ['-'] else []) ++ ['i', 'n', 'f']
  | nan => ['N', 'a', 'N']

end RecordArchive
