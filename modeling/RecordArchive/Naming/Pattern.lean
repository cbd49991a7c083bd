import RecordArchive.Time.Instant

/-!
# Date-time patterns

A pattern such as `yyyy-MM-dd'T'HH` is read once into items, fields of an
instant and literal text, and then rendered at any instant.  It is cut from left
to right into three kinds of piece: a maximal run of one ASCII letter, which
names a field; a quoted section, whose text is taken as it is; and any other
single character that is allowed.  Neighbouring pieces of text become one
literal, so that patterns of one meaning have the same items.
-/

namespace RecordArchive.Naming

/-- A part of an instant as a pattern writes it. -/
inductive Field
  | year (width : Nat)
  | yearOfCentury
  | month (padded : Bool)
  | monthShort
  | monthLong
  | day (padded : Bool)
  | dayOfYear (width : Nat)
  | hour24 (padded : Bool)
  | hour12 (padded : Bool)
  | minute (padded : Bool)
  | second (padded : Bool)
  | weekdayShort
  | weekdayLong
  | halfDay
  deriving DecidableEq, Repr

namespace Field

/-- A number below a hundred, with two digits where the field is padded. -/
def numeral (padded : Bool) (n : Nat) : List Char :=
  Text.padded (if padded then 2 else 1) n

/-- The text of a field at an instant. -/
def render (t : Instant) : Field → List Char
  | year width => Text.paddedInt width t.date.year
  | yearOfCentury => Text.padded 2 (t.date.year % 100).toNat
  | month padded => numeral padded t.date.month
  | monthShort => (abbreviation t.date.monthName).toList
  | monthLong => t.date.monthName.toList
  | day padded => numeral padded t.date.day
  | dayOfYear width => Text.padded width t.date.dayOfYear
  | hour24 padded => numeral padded t.hour
  | hour12 padded => numeral padded t.hourOfHalfDay
  | minute padded => numeral padded t.minute
  | second padded => numeral padded t.second
  | weekdayShort => (abbreviation (weekdayName t.dayNumber)).toList
  | weekdayLong => (weekdayName t.dayNumber).toList
  | halfDay => if t.isMorning then ['A', 'M'] else ['P', 'M']

/-- The field that a letter repeated `count` times names. -/
def ofRun? : Char → Nat → Option Field
  | 'y', 1 => some (year 1)
  | 'y', 2 => some yearOfCentury
  | 'y', 3 => some (year 3)
  | 'y', 4 => some (year 4)
  | 'M', 1 => some (month false)
  | 'M', 2 => some (month true)
  | 'M', 3 => some monthShort
  | 'M', 4 => some monthLong
  | 'd', 1 => some (day false)
  | 'd', 2 => some (day true)
  | 'D', 1 => some (dayOfYear 1)
  | 'D', 2 => some (dayOfYear 2)
  | 'D', 3 => some (dayOfYear 3)
  | 'H', 1 => some (hour24 false)
  | 'H', 2 => some (hour24 true)
  | 'h', 1 => some (hour12 false)
  | 'h', 2 => some (hour12 true)
  | 'm', 1 => some (minute false)
  | 'm', 2 => some (minute true)
  | 's', 1 => some (second false)
  | 's', 2 => some (second true)
  | 'E', 1 => some weekdayShort
  | 'E', 2 => some weekdayShort
  | 'E', 3 => some weekdayShort
  | 'E', 4 => some weekdayLong
  | 'a', 1 => some halfDay
  | _, _ => none

/-- The letters that name a field in at least one width. -/
def letters : List Char := ['y', 'M', 'd', 'D', 'H', 'h', 'm', 's', 'E', 'a']

end Field

/-- What a pattern is made of. -/
inductive Item
  | field (f : Field)
  | literal (text : List Char)
  deriving DecidableEq, Repr

def Item.render (t : Instant) : Item → List Char
  | field f => f.render t
  | literal text => text

/-- Characters that a pattern may hold neither as they are nor quoted.  The slash
is one of them, so that a rendered pattern never begins a new part of a path. -/
def reserved : List Char := ['%', '{', '}', '#', '[', ']', '\\', '/', '?', '*']

def isReserved (c : Char) : Bool := reserved.contains c

/-- Characters that stand for themselves in a pattern without quotes. -/
def isPlain (c : Char) : Bool :=
  0x20 ≤ c.toNat && c.toNat < 0x7F && !c.isAlpha && c != '\'' && !isReserved c

inductive PatternFault
  | unclosedQuote
  | reservedInQuote (text : List Char)
  | forbiddenCharacter (c : Char)
  | unsupportedWidth (letter : Char) (count : Nat)
  | unsupportedLetter (letter : Char) (count : Nat)
  | noField
  deriving DecidableEq, Repr

namespace PatternFault

def message : PatternFault → String
  | unclosedQuote => "unterminated quoted literal in date-time pattern"
  | reservedInQuote text =>
    "quoted literal '" ++ String.ofList text ++ "' contains a reserved character"
  | forbiddenCharacter c =>
    "character '" ++ String.singleton c ++ "' is not allowed in a date-time pattern"
  | unsupportedWidth letter count =>
    "'" ++ String.ofList (List.replicate count letter) ++ "' repeated " ++ toString count ++
      " times is not a supported width"
  | unsupportedLetter letter count =>
    "unsupported date-time symbol '" ++ String.ofList (List.replicate count letter) ++ "'"
  | noField => "date-time pattern has no date or time fields"

end PatternFault

/-- The text of a quoted section and what follows it, given what follows the
opening quote.  A doubled quote stands for one; the first quote that is not
doubled closes the section. -/
def quotedSection : List Char → Option (List Char × List Char)
  | [] => none
  | '\'' :: '\'' :: rest => (quotedSection rest).map fun (text, after) => ('\'' :: text, after)
  | '\'' :: rest => some ([], rest)
  | c :: rest => (quotedSection rest).map fun (text, after) => (c :: text, after)

theorem length_quotedSection {cs text after : List Char}
    (h : quotedSection cs = some (text, after)) : after.length < cs.length := by
  fun_induction quotedSection cs generalizing text after with
  | case1 => simp at h
  | case2 rest ih =>
    obtain ⟨⟨t, a⟩, ha, hp⟩ := Option.map_eq_some_iff.1 h
    obtain ⟨_, rfl⟩ := Prod.mk.inj hp
    have := ih ha
    simp only [List.length_cons]
    omega
  | case3 rest =>
    obtain ⟨_, rfl⟩ := Prod.mk.inj (Option.some.inj h)
    simp
  | case4 c rest _ _ ih =>
    obtain ⟨⟨t, a⟩, ha, hp⟩ := Option.map_eq_some_iff.1 h
    obtain ⟨_, rfl⟩ := Prod.mk.inj hp
    have := ih ha
    simp only [List.length_cons]
    omega

/-- A quoted section stands for its text.  An empty one stands for a quote. -/
def quotedItem (text : List Char) : Except PatternFault Item :=
  let text := if text.isEmpty then ['\''] else text
  if text.any isReserved then .error (.reservedInQuote text) else .ok (.literal text)

/-- The field that a run of one letter names. -/
def runItem (letter : Char) (count : Nat) : Except PatternFault Item :=
  match Field.ofRun? letter count with
  | some f => .ok (.field f)
  | none =>
    if Field.letters.contains letter then .error (.unsupportedWidth letter count)
    else .error (.unsupportedLetter letter count)

/-- A character outside quotes that is no letter. -/
def plainItem (c : Char) : Except PatternFault Item :=
  if isPlain c then .ok (.literal [c]) else .error (.forbiddenCharacter c)

theorem length_dropWhile_le {α : Type} (p : α → Bool) (xs : List α) :
    (xs.dropWhile p).length ≤ xs.length :=
  (List.dropWhile_sublist p).length_le

/-- Cuts a pattern into its pieces.  Of several faults the leftmost is found. -/
def pieces (cs : List Char) : Except PatternFault (List Item) :=
  match cs with
  | [] => .ok []
  | c :: rest =>
    if c = '\'' then
      match h : quotedSection rest with
      | none => .error .unclosedQuote
      | some (text, after) =>
        have : after.length < rest.length := length_quotedSection h
        do
          let item ← quotedItem text
          return item :: (← pieces after)
    else if c.isAlpha then do
      let item ← runItem c ((rest.takeWhile (· == c)).length + 1)
      return item :: (← pieces (rest.dropWhile (· == c)))
    else do
      let item ← plainItem c
      return item :: (← pieces rest)
termination_by cs.length
decreasing_by
  · simp only [List.length_cons]
    omega
  · have := length_dropWhile_le (· == c) rest
    simp only [List.length_cons]
    omega
  · simp

/-- Joins neighbouring literals into one. -/
def glue : List Item → List Item
  | [] => []
  | .field f :: rest => .field f :: glue rest
  | .literal text :: rest =>
    match glue rest with
    | .literal more :: after => .literal (text ++ more) :: after
    | items => .literal text :: items

def Item.isField : Item → Bool
  | field _ => true
  | literal _ => false

/-- A pattern that has been read: the text it was read from and its items. -/
structure Pattern where
  source : List Char
  items : List Item
  deriving DecidableEq, Repr

namespace Pattern

/-- Reads a pattern.  It has to hold one field at least. -/
def parse (cs : List Char) : Except PatternFault Pattern := do
  let found ← pieces cs
  if found.any Item.isField then return ⟨cs, glue found⟩ else .error .noField

def render (p : Pattern) (t : Instant) : List Char := p.items.flatMap (Item.render t)

end Pattern

/-- Gluing literals changes no rendering. -/
theorem render_glue (t : Instant) (items : List Item) :
    (glue items).flatMap (Item.render t) = items.flatMap (Item.render t) := by
  fun_induction glue items with
  | case1 => rfl
  | case2 f rest ih => simp [ih]
  | case3 text rest more after h ih =>
    rw [h] at ih
    simp only [List.flatMap_cons, Item.render] at ih ⊢
    simp [← ih]
  | case4 text rest h ih => simp_all

end RecordArchive.Naming
