import RecordArchive.Json.Value

/-!
# Definitions of tables

The tables that the lines of a TOML document define.  Each table is defined once:
by a header, by being on the way to one, or by a key with points.  How it came to
be decides what may still be added to it.
-/

namespace RecordArchive.Toml

/-- How a table came to be. -/
inductive Origin
  /-- A header named it. -/
  | header
  /-- A header named a table within it. -/
  | onTheWay
  /-- A key with points named a value within it. -/
  | points
  deriving DecidableEq

/-- What a key stands for.  The tables of an array are kept with the last one
apart, because it is the one that may grow. -/
inductive Definition
  | value (v : Json)
  | table (origin : Origin) (entries : List (String × Definition))
  | array (earlier : List (List (String × Definition))) (last : List (String × Definition))
  deriving Inhabited

abbrev Definitions := List (String × Definition)

namespace Definitions

/-- Works on the table that a header's path leads to, and makes those missing on
the way. -/
def within (change : Definitions → Option Definitions) :
    List String → Definitions → Option Definitions
  | [], entries => change entries
  | key :: path, entries =>
    match Dictionary.find? key entries with
    | none => do
      let inner ← within change path []
      return Dictionary.insert key (.table .onTheWay inner) entries
    | some (.value _) => none
    | some (.table origin inner) => do
      let inner ← within change path inner
      return Dictionary.insert key (.table origin inner) entries
    | some (.array earlier last) => do
      let last ← within change path last
      return Dictionary.insert key (.array earlier last) entries

/-- Defines the table that a header names.  It may have been on the way to
another before. -/
def openTable (key : String) (entries : Definitions) : Option Definitions :=
  match Dictionary.find? key entries with
  | none => some (Dictionary.insert key (.table .header []) entries)
  | some (.table .onTheWay inner) => some (Dictionary.insert key (.table .header inner) entries)
  | _ => none

/-- Begins another table of an array. -/
def openElement (key : String) (entries : Definitions) : Option Definitions :=
  match Dictionary.find? key entries with
  | none => some (Dictionary.insert key (.array [] []) entries)
  | some (.array earlier last) =>
      some (Dictionary.insert key (.array (earlier ++ [last]) []) entries)
  | _ => none

/-- Sets a key to a value in a table.  Whether the table came to be by points is
given; a key with points has to lead to a table that did, and a key without has
to stand in one that did not. -/
def set (v : Json) : List String → (byPoints : Bool) → (isFirst : Bool) → Definitions →
    Option Definitions
  | [], _, _, _ => none
  | [key], byPoints, isFirst, entries =>
    if byPoints = isFirst then none
    else match Dictionary.find? key entries with
      | none => some (Dictionary.insert key (.value v) entries)
      | some _ => none
  | key :: path, _, _, entries =>
    match Dictionary.find? key entries with
    | none => do
      let inner ← set v path true false []
      return Dictionary.insert key (.table .points inner) entries
    | some (.table origin inner) =>
      if origin = .header then none
      else do
        let inner ← set v path (origin == .points) false inner
        return Dictionary.insert key (.table origin inner) entries
    | some (.array earlier last) => do
      let last ← set v path false false last
      return Dictionary.insert key (.array earlier last) entries
    | some (.value _) => none

/-- Sets a key to a value in a table that a header or braces opened. -/
def add (path : List String) (v : Json) (entries : Definitions) : Option Definitions :=
  set v path false true entries

end Definitions

mutual

/-- The value of a definition. -/
def Definition.toJson : Definition → Json
  | .value v => v
  | .table _ entries => .object (Definition.fieldsToJson entries)
  | .array earlier last =>
    .array (Definition.tablesToJson earlier ++ [.object (Definition.fieldsToJson last)])

def Definition.fieldsToJson : List (String × Definition) → List (String × Json)
  | [] => []
  | (key, d) :: rest => (key, d.toJson) :: Definition.fieldsToJson rest

def Definition.tablesToJson : List (List (String × Definition)) → List Json
  | [] => []
  | entries :: rest => .object (Definition.fieldsToJson entries) :: Definition.tablesToJson rest

end

end RecordArchive.Toml
