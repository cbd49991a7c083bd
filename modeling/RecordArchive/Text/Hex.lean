import RecordArchive.Bytes
import RecordArchive.Text.Numeral

/-!
# Hexadecimal bytes

Bytes written as two hexadecimal digits each.
-/

namespace RecordArchive.Hex

/-- The two digits of a byte, in lower case. -/
def digits (byte : UInt8) : List Char :=
  [Text.hexDigit (byte.toNat / 16), Text.hexDigit (byte.toNat % 16)]

def encode (bytes : Bytes) : List Char := bytes.flatMap digits

/-- The bytes that digits of either case spell. -/
def decode? : List Char → Option Bytes
  | [] => some []
  | a :: b :: rest => do
    let high ← Text.hexValue? a
    let low ← Text.hexValue? b
    return UInt8.ofNat (high * 16 + low) :: (← decode? rest)
  | _ => none

end RecordArchive.Hex
