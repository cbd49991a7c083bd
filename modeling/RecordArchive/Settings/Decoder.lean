import RecordArchive.ByteSize
import RecordArchive.Json.Value

/-!
# Reading settings out of trees

The building blocks that turn a tree of values into settings.  A structure is
given by the names of its fields, or as a list of their values in order.  A
choice is given by the name of the alternative, or as a table with that name as
its entry.
-/

namespace RecordArchive

/-- Where a tree of settings comes from.  A tree of a document has to say exactly
what it means; in one made of layers, entries and items beyond those wanted are
passed over. -/
inductive Dialect
  | document
  | layered
  deriving DecidableEq, Repr

namespace Settings

variable {α : Type}

def text? : Json → Option String
  | .text s => some s
  | _ => none

def boolean? : Json → Option Bool
  | .boolean b => some b
  | _ => none

/-- A whole number that is not negative and at most `greatest`. -/
def natural? (greatest : Nat) : Json → Option Nat
  | .integer n => if 0 ≤ n ∧ n ≤ greatest then some n.toNat else none
  | _ => none

def word64? : Json → Option Nat := natural? ((1 <<< 64) - 1)

def word32? : Json → Option Nat := natural? ((1 <<< 32) - 1)

def number? : Json → Option Binary64
  | .integer n => some (Binary64.ofInt n)
  | .float x => some x
  | _ => none

/-- A size, in bytes or as a text with a unit. -/
def size? : Json → Option Nat
  | .text s => ByteSize.parse? s
  | v => word64? v

def listOf (read : Json → Option α) : Json → Option (List α)
  | .array items => items.mapM read
  | _ => none

/-- A field that has to be there. -/
def required (read : Json → Option α) : Option Json → Option α
  | some v => read v
  | none => none

/-- A field that has a default. -/
def withDefault (default : α) (read : Json → Option α) : Option Json → Option α
  | some v => read v
  | none => some default

/-- A field that may be missing or null. -/
def nullable (read : Json → Option α) : Option Json → Option (Option α)
  | none | some .null => some none
  | some v => (read v).map some

/-- The value of a field in a table, under one of its names.  Under two of them
at once it has no meaning. -/
def fieldIn (entries : List (String × Json)) (names : List String) : Option (Option Json) :=
  match entries.filter fun entry => names.contains entry.1 with
  | [] => some none
  | [entry] => some (some entry.2)
  | _ => none

/-- The values of the fields of a structure.  Each field is given by its names. -/
def fields (dialect : Dialect) (names : List (List String)) : Json → Option (List (Option Json))
  | .object entries => names.mapM (fieldIn entries)
  | .array items =>
    if names.length < items.length && dialect == .document then none
    else some ((List.range names.length).map (items[·]?))
  | _ => none

/-- The name of an alternative and what is given with it. -/
def choice (dialect : Dialect) : Json → Option (String × Option Json)
  | .text name => some (name, none)
  | .object [(name, content)] => some (name, some content)
  | .object ((name, content) :: _) =>
    if dialect = .layered then some (name, some content) else none
  | _ => none

/-- Whether what is given with an alternative says that there is nothing to give. -/
def isPlain (dialect : Dialect) : Option Json → Bool
  | none => true
  | some .null => dialect == .document
  | some _ => false

/-- Whether what is given with an alternative may hold its fields by name. -/
def isTable : Json → Bool
  | .object _ => true
  | _ => false

end Settings

end RecordArchive
