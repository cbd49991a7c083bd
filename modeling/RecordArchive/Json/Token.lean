import RecordArchive.Decimal.Parts
import RecordArchive.Json.Value

/-!
# JSON tokens

The tokens of a JSON text: brackets, commas and colons, and the values that are
not made of others.  White space between tokens is only the four characters that
the format names.  A number is the longest run of characters that numbers are
made of, and it has to be a number as a whole.
-/

namespace RecordArchive.Json

inductive Token
  | openArray
  | closeArray
  | openObject
  | closeObject
  | comma
  | colon
  | scalar (value : Json)

def isSpace (c : Char) : Bool := c == ' ' || c == '\t' || c == '\n' || c == '\r'

/-- The number that four hexadecimal digits spell, and what follows them. -/
def codeUnit? : List Char → Option (Nat × List Char)
  | a :: b :: c :: d :: rest => (Text.natOfDigits? 16 [a, b, c, d]).map fun n => (n, rest)
  | _ => none

/-- The character that an escape of one character stands for. -/
def shortEscape? : Char → Option Char
  | '"' => some '"'
  | '\\' => some '\\'
  | '/' => some '/'
  | 'b' => some '\x08'
  | 'f' => some '\x0c'
  | 'n' => some '\n'
  | 'r' => some '\r'
  | 't' => some '\t'
  | _ => none

/-- The character of a code unit, or of a pair of them.  Half a pair is no
character. -/
def codePoint? (high : Nat) (rest : List Char) : Option (Char × List Char) :=
  if high < 0xD800 ∨ 0xE000 ≤ high then some (Char.ofNat high, rest)
  else if 0xDC00 ≤ high then none
  else match rest with
    | '\\' :: 'u' :: more => do
      let (low, rest) ← codeUnit? more
      if 0xDC00 ≤ low ∧ low < 0xE000 then
        return (Char.ofNat (0x10000 + (high - 0xD800) * 0x400 + (low - 0xDC00)), rest)
      else none
    | _ => none

/-- The character that an escape stands for, and what follows the escape, given
what follows the backslash. -/
def escaped? : List Char → Option (Char × List Char)
  | [] => none
  | c :: rest =>
    if c = 'u' then do
      let (unit, rest) ← codeUnit? rest
      codePoint? unit rest
    else (shortEscape? c).map fun plain => (plain, rest)

theorem length_codeUnit? {cs rest : List Char} {n : Nat} (h : codeUnit? cs = some (n, rest)) :
    rest.length < cs.length := by
  unfold codeUnit? at h
  split at h
  · obtain ⟨_, _, e⟩ := Option.map_eq_some_iff.1 h
    obtain ⟨_, rfl⟩ := Prod.mk.inj e
    simp only [List.length_cons]
    omega
  · simp at h

theorem length_codePoint? {high : Nat} {cs rest : List Char} {c : Char}
    (h : codePoint? high cs = some (c, rest)) : rest.length ≤ cs.length := by
  unfold codePoint? at h
  split at h
  · obtain ⟨_, rfl⟩ := Prod.mk.inj (Option.some.inj h)
    simp
  · split at h
    · simp at h
    · split at h
      · rename_i more
        cases hu : codeUnit? more with
        | none => simp [hu] at h
        | some found =>
          obtain ⟨low, after⟩ := found
          have := length_codeUnit? hu
          simp only [hu, Option.pure_def, Option.bind_eq_bind, Option.bind_some] at h
          split at h
          · obtain ⟨_, rfl⟩ := Prod.mk.inj (Option.some.inj h)
            simp only [List.length_cons]
            omega
          · simp at h
      · simp at h

theorem length_escaped? {cs rest : List Char} {c : Char} (h : escaped? cs = some (c, rest)) :
    rest.length < cs.length := by
  unfold escaped? at h
  split at h
  · simp at h
  · rename_i d after
    split at h
    · cases hu : codeUnit? after with
      | none => simp [hu] at h
      | some found =>
        obtain ⟨unit, more⟩ := found
        have := length_codeUnit? hu
        simp only [hu, Option.bind_eq_bind, Option.bind_some] at h
        have := length_codePoint? h
        simp only [List.length_cons]
        omega
    · obtain ⟨_, _, e⟩ := Option.map_eq_some_iff.1 h
      obtain ⟨_, rfl⟩ := Prod.mk.inj e
      simp

/-- The text up to the closing quote and what follows it.  `reversed` is the text
read so far. -/
def closeText? (reversed : List Char) (cs : List Char) : Option (List Char × List Char) :=
  match cs with
  | [] => none
  | c :: rest =>
    if c = '"' then some (reversed.reverse, rest)
    else if c = '\\' then
      match h : escaped? rest with
      | none => none
      | some (plain, after) =>
        have : after.length < rest.length := length_escaped? h
        closeText? (plain :: reversed) after
    else if c.toNat < 0x20 then none
    else closeText? (c :: reversed) rest
termination_by cs.length
decreasing_by
  · simp only [List.length_cons]
    omega
  · simp

theorem length_closeText? {reversed cs text rest : List Char}
    (h : closeText? reversed cs = some (text, rest)) : rest.length < cs.length := by
  fun_induction closeText? reversed cs with
  | case1 => simp at h
  | case2 => simp_all
  | case3 => simp at h
  | case4 reversed rest' hq plain after he hl ih =>
    have := ih h
    simp only [List.length_cons]
    omega
  | case5 => simp at h
  | case6 reversed c rest' _ _ _ ih =>
    have := ih h
    simp only [List.length_cons]
    omega

def isNumberChar (c : Char) : Bool :=
  c.isDigit || c == '-' || c == '+' || c == '.' || c == 'e' || c == 'E'

/-- A sign that may be missing, and the rest. -/
def splitSign : List Char → Bool × List Char
  | '-' :: rest => (true, rest)
  | '+' :: rest => (false, rest)
  | cs => (false, cs)

/-- The power of ten at the end of a number. -/
def power? : List Char → Option Int
  | [] => some 0
  | mark :: rest =>
    if mark = 'e' ∨ mark = 'E' then
      let (negative, ds) := splitSign rest
      if ds.isEmpty || !ds.all Char.isDigit then none
      else
        let n : Int := Text.natOfDigits ds
        some (if negative then -n else n)
    else none

/-- A whole number, as a binary number if it does not fit into 64 bits.  The zero
with a sign is no whole number. -/
def ofWhole? (negative : Bool) (whole : List Char) : Option Json :=
  let n := Text.natOfDigits whole
  let value : Int := if negative then -(n : Int) else n
  if negative && n == 0 then some (float (Binary64.zero true))
  else if leastInteger ≤ value ∧ value ≤ greatestInteger then some (integer value)
  else (Binary64.read? negative whole [] 0).map float

def number? (cs : List Char) : Option Json :=
  let (negative, rest) := match cs with
    | '-' :: rest => (true, rest)
    | _ => (false, cs)
  let whole := rest.takeWhile Char.isDigit
  let rest := rest.dropWhile Char.isDigit
  if whole.isEmpty || (whole.head? == some '0' && whole.length != 1) then none
  else match rest with
    | [] => ofWhole? negative whole
    | '.' :: rest =>
      let fraction := rest.takeWhile Char.isDigit
      if fraction.isEmpty then none
      else do
        let power ← power? (rest.dropWhile Char.isDigit)
        (Binary64.read? negative whole fraction power).map float
    | rest => do
      let power ← power? rest
      (Binary64.read? negative whole [] power).map float

def named? (cs : List Char) : Option Json :=
  if cs = "null".toList then some null
  else if cs = "true".toList then some (boolean true)
  else if cs = "false".toList then some (boolean false)
  else none

/-- The bracket, comma or colon that a character is. -/
def mark? : Char → Option Token
  | '[' => some .openArray
  | ']' => some .closeArray
  | '{' => some .openObject
  | '}' => some .closeObject
  | ',' => some .comma
  | ':' => some .colon
  | _ => none

/-- The token that begins with a character, and what follows the token. -/
def tokenAt? (c : Char) (rest : List Char) : Option (Token × List Char) :=
  match mark? c with
  | some token => some (token, rest)
  | none =>
    if c = '"' then
      (closeText? [] rest).map fun (s, after) => (.scalar (text (String.ofList s)), after)
    else if c.isLower then
      (named? (c :: rest.takeWhile Char.isLower)).map fun value =>
        (.scalar value, rest.dropWhile Char.isLower)
    else if isNumberChar c then
      (number? (c :: rest.takeWhile isNumberChar)).map fun value =>
        (.scalar value, rest.dropWhile isNumberChar)
    else none

theorem length_tokenAt? {c : Char} {cs rest : List Char} {token : Token}
    (h : tokenAt? c cs = some (token, rest)) : rest.length ≤ cs.length := by
  unfold tokenAt? at h
  split at h
  · obtain ⟨_, rfl⟩ := Prod.mk.inj (Option.some.inj h)
    simp
  · split at h
    · obtain ⟨⟨s, after⟩, hc, e⟩ := Option.map_eq_some_iff.1 h
      obtain ⟨_, rfl⟩ := Prod.mk.inj e
      exact Nat.le_of_lt (length_closeText? hc)
    · split at h
      · obtain ⟨_, _, e⟩ := Option.map_eq_some_iff.1 h
        obtain ⟨_, rfl⟩ := Prod.mk.inj e
        exact (List.dropWhile_sublist _).length_le
      · split at h
        · obtain ⟨_, _, e⟩ := Option.map_eq_some_iff.1 h
          obtain ⟨_, rfl⟩ := Prod.mk.inj e
          exact (List.dropWhile_sublist _).length_le
        · simp at h

/-- The tokens of a text, after those found already. -/
def scanFrom (found : List Token) (cs : List Char) : Option (List Token) :=
  match cs with
  | [] => some found.reverse
  | c :: rest =>
    if isSpace c then scanFrom found rest
    else match h : tokenAt? c rest with
      | none => none
      | some (token, after) =>
        have : after.length ≤ rest.length := length_tokenAt? h
        scanFrom (token :: found) after
termination_by cs.length
decreasing_by
  · simp
  · simp only [List.length_cons]
    omega

def tokens? (cs : List Char) : Option (List Token) := scanFrom [] cs

end RecordArchive.Json
