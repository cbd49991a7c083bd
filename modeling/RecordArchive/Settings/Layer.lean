import RecordArchive.Json.Value

/-!
# Layers of settings

Settings are trees of values.  Of two layers the upper one wins: tables are
merged entry by entry, and everything else is replaced.
-/

namespace RecordArchive.Layer

mutual

/-- One layer below another. -/
def merge (lower upper : Json) : Json :=
  match upper with
  | .object entries =>
    match lower with
    | .object below => .object (mergeEntries below entries)
    | _ => .object entries
  | _ => upper

/-- The entries of one table below those of another. -/
def mergeEntries (below : List (String × Json)) : List (String × Json) → List (String × Json)
  | [] => below
  | (key, value) :: rest =>
    let merged := match Dictionary.find? key below with
      | some old => merge old value
      | none => value
    mergeEntries (Dictionary.insert key merged below) rest

end

end RecordArchive.Layer
