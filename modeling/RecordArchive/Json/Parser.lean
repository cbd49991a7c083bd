import RecordArchive.Json.Token

/-!
# Reading JSON

A value is read token by token.  What has been read of the arrays and objects
that are still open is kept as a stack of frames, innermost first, so that one
step of the reader looks only at the token, the innermost frame and what may come
next.  A text in which 128 containers or more are open at once is refused.
-/

namespace RecordArchive.Json

/-- An array or object that is still open, with the items read, the last one
first, or the fields read and the name of the one whose value comes next. -/
inductive Frame
  | array (reversed : List Json)
  | object (fields : List (String × Json)) (name : String)

/-- What may come next. -/
inductive Expectation
  | value
  | valueOrEnd
  | nameOrEnd (fields : List (String × Json))
  | name (fields : List (String × Json))
  | colon
  | commaOrEnd (last : Json)

structure Reader where
  frames : List Frame
  next : Expectation

/-- Containers that may be open at once. -/
def greatestDepth : Nat := 127

namespace Reader

def start : Reader := ⟨[], .value⟩

/-- Opens a container, unless too many are open. -/
def opening (frame : Frame) (next : Expectation) (frames : List Frame) : Option Reader :=
  if frames.length < greatestDepth then some ⟨frame :: frames, next⟩ else none

def beginValue (frames : List Frame) : Token → Option Reader
  | .openArray => opening (.array []) .valueOrEnd frames
  | .openObject => opening (.object [] "") (.nameOrEnd []) frames
  | .scalar value => some ⟨frames, .commaOrEnd value⟩
  | _ => none

def takeName (fields : List (String × Json)) (frames : List Frame) : Token → Option Reader
  | .scalar (.text name) =>
    match frames with
    | .object _ _ :: outer => some ⟨.object fields name :: outer, .colon⟩
    | _ => none
  | _ => none

def afterValue (last : Json) : List Frame → Token → Option Reader
  | .array reversed :: outer, .comma => some ⟨.array (last :: reversed) :: outer, .value⟩
  | .array reversed :: outer, .closeArray =>
    some ⟨outer, .commaOrEnd (.array (last :: reversed).reverse)⟩
  | .object fields name :: outer, .comma =>
    some ⟨.object fields name :: outer, .name (Dictionary.insert name last fields)⟩
  | .object fields name :: outer, .closeObject =>
    some ⟨outer, .commaOrEnd (.object (Dictionary.insert name last fields))⟩
  | _, _ => none

def step (r : Reader) (token : Token) : Option Reader :=
  match r.next, token with
  | .value, token => beginValue r.frames token
  | .valueOrEnd, .closeArray => some ⟨r.frames.tail, .commaOrEnd (.array [])⟩
  | .valueOrEnd, token => beginValue r.frames token
  | .nameOrEnd _, .closeObject => some ⟨r.frames.tail, .commaOrEnd (.object [])⟩
  | .nameOrEnd fields, token => takeName fields r.frames token
  | .name fields, token => takeName fields r.frames token
  | .colon, .colon => some ⟨r.frames, .value⟩
  | .colon, _ => none
  | .commaOrEnd last, token => afterValue last r.frames token

/-- The value read, when no token follows. -/
def finish (r : Reader) : Option Json :=
  match r.frames, r.next with
  | [], .commaOrEnd value => some value
  | _, _ => none

end Reader

/-- Reads a text that holds one value and white space. -/
def parse? (text : String) : Option Json := do
  let reader ← (← tokens? text.toList).foldlM Reader.step Reader.start
  reader.finish

end RecordArchive.Json
