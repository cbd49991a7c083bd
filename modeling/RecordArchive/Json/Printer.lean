import RecordArchive.Decimal.Notation
import RecordArchive.Json.Value

/-!
# Printing JSON

The compact text of a value: no white space, fields in the order in which the
value keeps them, and only those characters escaped that have to be.  A line
feed inside a text is escaped, so a printed value is a single line.
-/

namespace RecordArchive.Json

/-- A character of a text as it stands between quotes. -/
def escape (c : Char) : List Char :=
  if c = '"' then ['\\', '"']
  else if c = '\\' then ['\\', '\\']
  else if 0x20 ≤ c.toNat then [c]
  else if c = '\n' then ['\\', 'n']
  else if c = '\r' then ['\\', 'r']
  else if c = '\t' then ['\\', 't']
  else if c.toNat = 0x08 then ['\\', 'b']
  else if c.toNat = 0x0C then ['\\', 'f']
  else ['\\', 'u', '0', '0', Text.hexDigit (c.toNat / 16), Text.hexDigit (c.toNat % 16)]

def quoted (s : String) : List Char := '"' :: s.toList.flatMap escape ++ ['"']

def numeral (n : Int) : List Char := Text.paddedInt 1 n

mutual

def render : Json → List Char
  | null => "null".toList
  | boolean true => "true".toList
  | boolean false => "false".toList
  | integer n => numeral n
  | float x => x.render Layout.json
  | text s => quoted s
  | array items => '[' :: renderItems items ++ [']']
  | object fields => '{' :: renderFields fields ++ ['}']

def renderItems : List Json → List Char
  | [] => []
  | [item] => render item
  | item :: next :: rest => render item ++ ',' :: renderItems (next :: rest)

def renderFields : List (String × Json) → List Char
  | [] => []
  | [(name, value)] => quoted name ++ ':' :: render value
  | (name, value) :: next :: rest =>
    quoted name ++ ':' :: render value ++ ',' :: renderFields (next :: rest)

end

def print (value : Json) : String := String.ofList value.render

end RecordArchive.Json
