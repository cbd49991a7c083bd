/-!
# Segments

Cutting a text at every occurrence of a separator.
-/

namespace RecordArchive.Text

/-- The parts of a text between separators, one more than there are separators. -/
def segments (separator : Char) : List Char → List (List Char)
  | [] => [[]]
  | c :: rest =>
    if c = separator then [] :: segments separator rest
    else match segments separator rest with
      | [] => [[c]]
      | part :: more => (c :: part) :: more

theorem segments_ne_nil (separator : Char) (cs : List Char) : segments separator cs ≠ [] := by
  cases cs with
  | nil => simp [segments]
  | cons c rest =>
    unfold segments
    split
    · simp
    · split <;> simp

end RecordArchive.Text
