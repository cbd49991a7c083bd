/-!
# Readers

Functions that read something from the front of a text and leave the rest.  They
are put together from a few that read single characters, runs of characters and
repetitions.  A repetition goes on only while the text gets shorter, so it ends
for every reader.
-/

namespace RecordArchive.Text

abbrev Reader (α : Type) := StateT (List Char) Option α

namespace Reader

variable {α β : Type}

def peek : Reader (Option Char) := fun cs => some (cs.head?, cs)

def isAtEnd : Reader Bool := fun cs => some (cs.isEmpty, cs)

/-- One character of a class. -/
def char (p : Char → Bool) : Reader Char
  | [] => none
  | c :: rest => if p c then some (c, rest) else none

def literal (text : List Char) : Reader Unit := fun cs =>
  if text.isPrefixOf cs then some ((), cs.drop text.length) else none

/-- The longest run of characters of a class, which may be empty. -/
def span (p : Char → Bool) : Reader (List Char) := fun cs =>
  some (cs.takeWhile p, cs.dropWhile p)

/-- The longest run of characters of a class, and one at least. -/
def run (p : Char → Bool) : Reader (List Char) := fun cs =>
  if (cs.head?.any p) then some (cs.takeWhile p, cs.dropWhile p) else none

/-- As many characters as asked for, each of a class. -/
def exactly (n : Nat) (p : Char → Bool) : Reader (List Char) := fun cs =>
  let found := cs.take n
  if found.length = n ∧ found.all p then some (found, cs.drop n) else none

/-- What `r` reads, if it reads anything. -/
def optional (r : Reader α) : Reader (Option α) := fun cs =>
  match r cs with
  | some (a, rest) => some (some a, rest)
  | none => some (none, cs)

/-- What `r` reads, or otherwise what `s` reads. -/
def either (r s : Reader α) : Reader α := fun cs =>
  match r cs with
  | some found => some found
  | none => s cs

def manyFrom (r : Reader α) (found : List α) (cs : List Char) : List α × List Char :=
  match r cs with
  | none => (found.reverse, cs)
  | some (a, rest) =>
    if rest.length < cs.length then manyFrom r (a :: found) rest else (found.reverse, cs)
termination_by cs.length

/-- Everything that `r` reads one after the other. -/
def many (r : Reader α) : Reader (List α) := fun cs => some (manyFrom r [] cs)

/-- One or more readings of `r` with readings of `separator` between them. -/
def separated (r : Reader α) (separator : Reader Unit) : Reader (List α) := do
  let first ← r
  let more ← many (do separator; r)
  return first :: more

/-- What `r` reads from a text, if that is the whole text. -/
def whole (r : Reader α) (cs : List Char) : Option α :=
  match r cs with
  | some (a, []) => some a
  | _ => none

end Reader

end RecordArchive.Text
