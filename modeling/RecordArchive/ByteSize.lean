import RecordArchive.Decimal.Binary64
import RecordArchive.Text.Blank

/-!
# Sizes in bytes

A size is written as a whole number of bytes, or as a number with a unit.  A
number without a point is multiplied exactly; one with a point is read as a
binary number and the product is rounded and cut to a whole number.  Either way
a size that does not fit into 64 bits becomes the greatest one that does.
-/

namespace RecordArchive.ByteSize

def greatest : Nat := (1 <<< 64) - 1

/-- The number of bytes in a unit, which may be written in either case. -/
def unit? (name : List Char) : Option Nat :=
  match String.ofList (name.map Char.toLower) with
  | "b" => some 1
  | "k" | "kb" => some 1000
  | "m" | "mb" => some (Nat.pow 1000 2)
  | "g" | "gb" => some (Nat.pow 1000 3)
  | "t" | "tb" => some (Nat.pow 1000 4)
  | "p" | "pb" => some (Nat.pow 1000 5)
  | "e" | "eb" => some (Nat.pow 1000 6)
  | "ki" | "kib" => some 1024
  | "mi" | "mib" => some (Nat.pow 1024 2)
  | "gi" | "gib" => some (Nat.pow 1024 3)
  | "ti" | "tib" => some (Nat.pow 1024 4)
  | "pi" | "pib" => some (Nat.pow 1024 5)
  | "ei" | "eib" => some (Nat.pow 1024 6)
  | _ => none

/-- A whole number of bytes, with a plus sign in front or without. -/
def plain? (cs : List Char) : Option Nat :=
  let ds := match cs with
    | '+' :: rest => rest
    | _ => cs
  if ds.isEmpty || !ds.all Char.isDigit then none
  else
    let n := Text.natOfDigits ds
    if n ≤ greatest then some n else none

/-- The product of a number, given by its digits and at most one point, and a
unit. -/
def product? (number : List Char) (unit : Nat) : Option Nat :=
  let whole := number.takeWhile Char.isDigit
  match number.dropWhile Char.isDigit with
  | [] => if whole.isEmpty then none else some (min greatest (Text.natOfDigits whole * unit))
  | _ :: fraction =>
    if fraction.all Char.isDigit && !(whole.isEmpty && fraction.isEmpty) then
      some (((Binary64.ofDigits false whole fraction 0).scale unit).truncate greatest)
    else none

def isNumberChar (c : Char) : Bool := c.isDigit || c == '.'

def parse? (text : String) : Option Nat :=
  let cs := text.toList
  match plain? cs with
  | some n => some n
  | none => do
    let unit ← unit? ((cs.dropWhile isNumberChar).dropWhile Text.isBlankChar)
    product? (cs.takeWhile isNumberChar) unit

end RecordArchive.ByteSize
