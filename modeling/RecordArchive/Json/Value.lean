import RecordArchive.Decimal.Binary64
import RecordArchive.Dictionary

/-!
# JSON values

The values that a JSON document can hold.  A number is whole if it is written
without a fraction and fits into 64 bits, and a binary number otherwise.  The
fields of an object are kept in the order of their names.
-/

namespace RecordArchive

inductive Json
  | null
  | boolean (b : Bool)
  | integer (n : Int)
  | float (x : Binary64)
  | text (s : String)
  | array (items : List Json)
  | object (fields : List (String × Json))
  deriving Inhabited

namespace Json

/-- The greatest whole number that is kept whole, which is 2^64 - 1. -/
def greatestInteger : Int := 18446744073709551615

/-- The least whole number that is kept whole, which is -2^63. -/
def leastInteger : Int := -9223372036854775808

/-- A field of an object.  Other values have none. -/
def field? (name : String) : Json → Option Json
  | object fields => Dictionary.find? name fields
  | _ => none

def text? : Json → Option String
  | text s => some s
  | _ => none

def isObject : Json → Bool
  | object _ => true
  | _ => false

mutual

/-- A value with every text in it changed, names of fields apart. -/
def mapTexts (change : String → String) : Json → Json
  | text s => text (change s)
  | array items => array (mapItems change items)
  | object fields => object (mapFields change fields)
  | value => value

def mapItems (change : String → String) : List Json → List Json
  | [] => []
  | item :: rest => mapTexts change item :: mapItems change rest

def mapFields (change : String → String) : List (String × Json) → List (String × Json)
  | [] => []
  | (name, value) :: rest => (name, mapTexts change value) :: mapFields change rest

end

/-- An object of the given fields, put in order. -/
def ofFields (fields : List (String × Json)) : Json := object (Dictionary.ofList fields)

end Json

end RecordArchive
