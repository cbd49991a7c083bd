/-!
# Blank text

White space in the sense of Unicode's property `White_Space`.  A text is blank
when it holds nothing else; blank names, blank bucket names and blank lines are
all refused or skipped by this one test.
-/

namespace RecordArchive.Text

/-- The characters that Unicode gives the property `White_Space`. -/
def isBlankChar (c : Char) : Bool :=
  let n := c.toNat
  (0x09 ≤ n && n ≤ 0x0D) || n == 0x20 || n == 0x85 || n == 0xA0 || n == 0x1680 ||
    (0x2000 ≤ n && n ≤ 0x200A) || n == 0x2028 || n == 0x2029 || n == 0x202F ||
    n == 0x205F || n == 0x3000

/-- Whether a text holds nothing but white space.  The empty text is blank. -/
def isBlank (text : String) : Bool := text.toList.all isBlankChar

/-- A list of characters without the white space at either end. -/
def trim (cs : List Char) : List Char :=
  ((cs.dropWhile isBlankChar).reverse.dropWhile isBlankChar).reverse

/-- The core library's notion of white space is a part of this one. -/
theorem isBlankChar_of_isWhitespace {c : Char} (h : c.isWhitespace = true) :
    isBlankChar c = true := by
  simp only [Char.isWhitespace, Bool.or_eq_true, decide_eq_true_eq] at h
  rcases h with ((h | h) | h) | h <;> subst h <;> decide

end RecordArchive.Text
