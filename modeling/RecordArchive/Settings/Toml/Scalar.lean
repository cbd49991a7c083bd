import RecordArchive.Json.Value
import RecordArchive.Text.Numeral
import RecordArchive.Text.Reader
import RecordArchive.Time.Calendar

/-!
# Scalars of TOML documents

Strings in their four forms, numbers and dates, and keys.  Control characters
other than the tab stand nowhere but in line ends.
-/

namespace RecordArchive.Toml

open Text (Reader)

def isSpace (c : Char) : Bool := c == ' ' || c == '\t'

/-- Characters that a comment and a text between single quotes may hold. -/
def isVisible (c : Char) : Bool :=
  c == '\t' || (0x20 ≤ c.toNat && c.toNat != 0x7F)

def lineEnd : Reader Unit := do
  let _ ← Reader.optional (Reader.literal ['\r'])
  Reader.literal ['\n']

def spaces : Reader Unit := do
  let _ ← Reader.span isSpace

def comment : Reader Unit := do
  if (← Reader.peek) = some '#' then
    let _ ← Reader.span isVisible

/-- White space, comments and ends of lines. -/
def blanks : Reader Unit := do
  let _ ← Reader.many do
    spaces
    comment
    lineEnd
  spaces

/-- The character with a hexadecimal number of `width` digits. -/
def codePoint (width : Nat) : Reader Char := do
  let ds ← Reader.exactly width fun c => (Text.hexValue? c).isSome
  let n := (Text.natOfDigits? 16 ds).getD 0
  if n < 0xD800 ∨ (0xE000 ≤ n ∧ n < 0x110000) then return Char.ofNat n else failure

/-- The character that an escape stands for, after the backslash. -/
def escape : Reader Char := do
  match ← Reader.char fun _ => true with
  | 'b' => return '\x08'
  | 't' => return '\t'
  | 'n' => return '\n'
  | 'f' => return '\x0c'
  | 'r' => return '\r'
  | '"' => return '"'
  | '\\' => return '\\'
  | 'u' => codePoint 4
  | 'U' => codePoint 8
  | _ => failure

/-- A part of a text between double quotes: a run of plain characters, or an
escape. -/
def basicPiece : Reader (List Char) :=
  Reader.either (Reader.run fun c => isVisible c && c != '"' && c != '\\') do
    Reader.literal ['\\']
    return [← escape]

def basicText : Reader (List Char) := do
  Reader.literal ['"']
  let pieces ← Reader.many basicPiece
  Reader.literal ['"']
  return pieces.flatten

def literalText : Reader (List Char) := do
  Reader.literal ['\'']
  let text ← Reader.span fun c => isVisible c && c != '\''
  Reader.literal ['\'']
  return text

def innerLineEnd : Reader (List Char) := do
  lineEnd
  return ['\n']

/-- A backslash at the end of a line, with all the white space after it. -/
def continuation : Reader (List Char) := do
  Reader.literal ['\\']
  spaces
  lineEnd
  let _ ← Reader.many (Reader.either lineEnd do let _ ← Reader.run isSpace)
  return []

/-- One or two quotes, unless there are three. -/
def fewQuotes (quote : Char) : Reader (List Char) := fun cs =>
  let count := (cs.takeWhile (· == quote)).length
  if count = 1 ∨ count = 2 then some (List.replicate count quote, cs.drop count) else none

/-- The end of a text between triple quotes, which may take up to two quotes with
it into the text. -/
def closeTriple (quote : Char) : Reader (List Char) := fun cs =>
  let count := (cs.takeWhile (· == quote)).length
  if 3 ≤ count then
    let count := min count 5
    some (List.replicate (count - 3) quote, cs.drop count)
  else none

/-- A text between triple quotes, made of the given pieces.  A line end right
after the opening quotes does not belong to it. -/
def tripleText (quote : Char) (piece : Reader (List Char)) : Reader (List Char) := do
  Reader.literal [quote, quote, quote]
  let _ ← Reader.optional lineEnd
  let pieces ← Reader.many (Reader.either piece (Reader.either innerLineEnd (fewQuotes quote)))
  let last ← closeTriple quote
  return pieces.flatten ++ last

def tripleBasicText : Reader (List Char) :=
  tripleText '"' (Reader.either basicPiece continuation)

def tripleLiteralText : Reader (List Char) :=
  tripleText '\'' (Reader.run fun c => isVisible c && c != '\'')

def text : Reader (List Char) :=
  Reader.either (Reader.either tripleBasicText tripleLiteralText)
    (Reader.either basicText literalText)

/-- Characters of a key without quotes. -/
def isKeyChar (c : Char) : Bool := c.isAlphanum || c == '_' || c == '-'

def keyPart : Reader String := do
  let cs ← Reader.either (Reader.run isKeyChar) (Reader.either basicText literalText)
  return String.ofList cs

/-- Parts that a key has at most. -/
def greatestKey : Nat := 79

def key : Reader (List String) := do
  let parts ← Reader.separated (do spaces; let part ← keyPart; spaces; return part)
    (Reader.literal ['.'])
  if parts.length ≤ greatestKey then return parts else failure

def sign : Reader Bool := do
  match ← Reader.optional (Reader.char fun c => c == '+' || c == '-') with
  | some c => return c == '-'
  | none => return false

/-- Digits of a class, with single underscores between them. -/
def digitGroup (p : Char → Bool) : Reader (List Char) := do
  let groups ← Reader.separated (Reader.run p) (Reader.literal ['_'])
  return groups.flatten

/-- Decimal digits without a zero in front. -/
def wholeDigits : Reader (List Char) := do
  let ds ← digitGroup Char.isDigit
  if ds.head? = some '0' ∧ ds.length ≠ 1 then failure else return ds

/-- The limit of whole numbers, 2^63. -/
def integerLimit : Int := 9223372036854775808

def ofInteger (n : Int) : Reader Json :=
  if -integerLimit ≤ n ∧ n < integerLimit then return .integer n else failure

/-- A whole number to another base. -/
def radixNumber (mark : Char) (base : Nat) : Reader Json := do
  Reader.literal ['0', mark]
  let ds ← digitGroup fun c => (Text.hexValue? c).any (· < base)
  ofInteger ((Text.natOfDigits? base ds).getD 0)

def power : Reader (Option Int) := Reader.optional do
  let _ ← Reader.char fun c => c == 'e' || c == 'E'
  let negative ← sign
  let n : Int := Text.natOfDigits (← digitGroup Char.isDigit)
  return if negative then -n else n

/-- A decimal number, whole or not.  A positive one that is out of range is
refused. -/
def decimalNumber : Reader Json := do
  let negative ← sign
  let whole ← wholeDigits
  let fraction ← Reader.optional do
    Reader.literal ['.']
    digitGroup Char.isDigit
  let power ← power
  if fraction.isNone && power.isNone then
    let n : Int := Text.natOfDigits whole
    ofInteger (if negative then -n else n)
  else
    let x := Binary64.ofDigits negative whole (fraction.getD []) (power.getD 0)
    if x = .infinite false then failure else return .float x

/-- An infinite number, or one that is not a number. -/
def namedNumber : Reader Json := do
  let negative ← sign
  Reader.either (do Reader.literal ['i', 'n', 'f']; return .float (.infinite negative))
    (do Reader.literal ['n', 'a', 'n']; return .float .nan)

/-- A number of two digits, at most `greatest`. -/
def twoDigits (least greatest : Nat) : Reader Nat := do
  let n := Text.natOfDigits (← Reader.exactly 2 Char.isDigit)
  if least ≤ n ∧ n ≤ greatest then return n else failure

def daysIn (year month : Nat) : Nat :=
  if month = 2 then (if Date.isLeapYear year then 29 else 28)
  else if [4, 6, 9, 11].contains month then 30 else 31

def dateText : Reader Unit := do
  let year := Text.natOfDigits (← Reader.exactly 4 Char.isDigit)
  Reader.literal ['-']
  let month ← twoDigits 1 12
  Reader.literal ['-']
  let _ ← twoDigits 1 (daysIn year month)

def timeText : Reader Unit := do
  let _ ← twoDigits 0 23
  Reader.literal [':']
  let _ ← twoDigits 0 59
  Reader.literal [':']
  let _ ← twoDigits 0 60
  let _ ← Reader.optional do
    Reader.literal ['.']
    Reader.run Char.isDigit

def offsetText : Reader Unit :=
  Reader.either (do let _ ← Reader.char fun c => c == 'Z' || c == 'z') do
    let _ ← Reader.char fun c => c == '+' || c == '-'
    let _ ← twoDigits 0 23
    Reader.literal [':']
    let _ ← twoDigits 0 59

def momentText : Reader Unit :=
  Reader.either (do
    dateText
    let _ ← Reader.optional do
      let _ ← Reader.char fun c => c == 'T' || c == 't' || c == ' '
      timeText
      Reader.optional offsetText) timeText

/-- The field of the table as which a date or a time is kept. -/
def momentField : String := "$moment"

/-- A date or a time, as a table with the text of it. -/
def moment : Reader Json := fun cs =>
  (momentText cs).map fun (_, rest) =>
    (.object [(momentField, .text (String.ofList (cs.take (cs.length - rest.length))))], rest)

def number : Reader Json :=
  Reader.either moment <| Reader.either namedNumber <| Reader.either (radixNumber 'x' 16) <|
    Reader.either (radixNumber 'o' 8) <| Reader.either (radixNumber 'b' 2) decimalNumber

def boolean : Reader Json :=
  Reader.either (do Reader.literal "true".toList; return .boolean true)
    (do Reader.literal "false".toList; return .boolean false)

def scalar : Reader Json :=
  Reader.either (do return .text (String.ofList (← text))) (Reader.either boolean number)

end RecordArchive.Toml
