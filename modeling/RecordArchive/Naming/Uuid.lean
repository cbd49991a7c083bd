import RecordArchive.Text.Numeral

/-!
# Random identifiers

A version 4 UUID: 122 random bits, written as 32 hexadecimal digits in groups of
8, 4, 4, 4 and 12.  The digit that starts the third group is always `4`, and the
one that starts the fourth is one of `8`, `9`, `a` and `b`.
-/

namespace RecordArchive.Naming

structure Uuid where
  bits : Nat
  bits_lt : bits < (1 <<< 122)
  deriving DecidableEq, Repr

namespace Uuid

/-- The identifier of the low 122 bits of a number. -/
def ofNat (n : Nat) : Uuid := ⟨n % (1 <<< 122), Nat.mod_lt _ (by decide)⟩

/-- `count` hexadecimal digits of `n`, of which the last is digit `low`. -/
def hexDigits (n low : Nat) : Nat → List Char
  | 0 => []
  | count + 1 => Text.hexDigit ((n >>> (4 * (low + count))) % 16) :: hexDigits n low count

def text (u : Uuid) : List Char :=
  let tail := u.bits % (1 <<< 62)
  let middle := (u.bits >>> 62) % (1 <<< 12)
  let front := u.bits >>> 74
  hexDigits front 4 8 ++ '-' :: hexDigits front 0 4 ++ '-' :: '4' :: hexDigits middle 0 3 ++
    '-' :: Text.hexDigit (8 + (tail >>> 60)) :: hexDigits tail 12 3 ++ '-' :: hexDigits tail 0 12

end Uuid

end RecordArchive.Naming
