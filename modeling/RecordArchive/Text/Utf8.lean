import RecordArchive.Bytes

/-!
# UTF-8

Texts as bytes, and bytes as texts.  `encode` writes each character in its
shortest form.  `decode` reads any bytes: each longest run of bytes that begins
a character but does not complete one, and each byte that cannot begin one, is
read as the replacement character U+FFFD.
-/

namespace RecordArchive.Utf8

/-- The bytes of one character, one to four of them. -/
def encodeChar (c : Char) : Bytes :=
  let n := c.toNat
  if n < 0x80 then [UInt8.ofNat n]
  else if n < 0x800 then [UInt8.ofNat (0xC0 + n / 0x40), UInt8.ofNat (0x80 + n % 0x40)]
  else if n < 0x10000 then
    [UInt8.ofNat (0xE0 + n / 0x1000), UInt8.ofNat (0x80 + n / 0x40 % 0x40),
      UInt8.ofNat (0x80 + n % 0x40)]
  else
    [UInt8.ofNat (0xF0 + n / 0x40000), UInt8.ofNat (0x80 + n / 0x1000 % 0x40),
      UInt8.ofNat (0x80 + n / 0x40 % 0x40), UInt8.ofNat (0x80 + n % 0x40)]

def encodeChars (cs : List Char) : Bytes := cs.flatMap encodeChar

def encode (text : String) : Bytes := encodeChars text.toList

/-- The character that stands for bytes that are no text. -/
def replacement : Char := '\uFFFD'

/-- A character of which some bytes have been read.  The next byte has to lie
between `low` and `high`, which is narrower than the range of a continuation
byte after those first bytes that would otherwise begin an over-long form, a
surrogate or a value above U+10FFFF. -/
structure Begun where
  value : Nat
  missing : Nat
  low : Nat
  high : Nat

/-- What a byte means where a character may begin. -/
inductive Lead
  | whole (c : Char)
  | begun (b : Begun)
  | none

def lead (byte : UInt8) : Lead :=
  let n := byte.toNat
  if n < 0x80 then .whole (Char.ofNat n)
  else if n < 0xC2 then .none
  else if n < 0xE0 then .begun ⟨n - 0xC0, 1, 0x80, 0xBF⟩
  else if n = 0xE0 then .begun ⟨0, 2, 0xA0, 0xBF⟩
  else if n = 0xED then .begun ⟨13, 2, 0x80, 0x9F⟩
  else if n < 0xF0 then .begun ⟨n - 0xE0, 2, 0x80, 0xBF⟩
  else if n = 0xF0 then .begun ⟨0, 3, 0x90, 0xBF⟩
  else if n < 0xF4 then .begun ⟨n - 0xF0, 3, 0x80, 0xBF⟩
  else if n = 0xF4 then .begun ⟨4, 3, 0x80, 0x8F⟩
  else .none

/-- A reading in progress: the characters read, the last one first, and the one
that has been begun. -/
structure Reading where
  reversed : List Char
  begun : Option Begun

namespace Reading

def start : Reading := ⟨[], none⟩

/-- Reads a byte where a character may begin. -/
def feedLead (reversed : List Char) (byte : UInt8) : Reading :=
  match lead byte with
  | .whole c => ⟨c :: reversed, none⟩
  | .begun b => ⟨reversed, some b⟩
  | .none => ⟨replacement :: reversed, none⟩

/-- Reads a byte.  One that does not continue the character that has been begun
ends it, and may begin another. -/
def feed (r : Reading) (byte : UInt8) : Reading :=
  match r.begun with
  | none => feedLead r.reversed byte
  | some b =>
    let n := byte.toNat
    if b.low ≤ n ∧ n ≤ b.high then
      let value := b.value * 0x40 + n % 0x40
      if b.missing ≤ 1 then ⟨Char.ofNat value :: r.reversed, none⟩
      else ⟨r.reversed, some ⟨value, b.missing - 1, 0x80, 0xBF⟩⟩
    else feedLead (replacement :: r.reversed) byte

/-- The characters read, when no byte follows. -/
def finish (r : Reading) : List Char :=
  match r.begun with
  | none => r.reversed.reverse
  | some _ => (replacement :: r.reversed).reverse

end Reading

def decodeChars (bytes : Bytes) : List Char := (bytes.foldl Reading.feed Reading.start).finish

def decode (bytes : Bytes) : String := String.ofList (decodeChars bytes)

/-- The text that is written as `bytes`, if there is one. -/
def text? (bytes : Bytes) : Option String :=
  let text := decode bytes
  if encode text = bytes then some text else none

theorem encodeChars_append (a b : List Char) :
    encodeChars (a ++ b) = encodeChars a ++ encodeChars b := by
  simp [encodeChars]

end RecordArchive.Utf8
