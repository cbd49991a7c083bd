import RecordArchive.Naming.Pattern

/-!
# Naming templates

A template is plain text with at most one token, a date-time pattern between
`%{` and the first `}` after it.  Rendering replaces the token by its pattern's
text and leaves the text on either side as it is.
-/

namespace RecordArchive.Naming

/-- What stands before and after the first `%{` of a text. -/
def splitAtOpen : List Char → Option (List Char × List Char)
  | [] => none
  | '%' :: '{' :: rest => some ([], rest)
  | c :: rest => (splitAtOpen rest).map fun (before, after) => (c :: before, after)

/-- What stands before and after the first `}` of a text. -/
def splitAtClose : List Char → Option (List Char × List Char)
  | [] => none
  | '}' :: rest => some ([], rest)
  | c :: rest => (splitAtClose rest).map fun (before, after) => (c :: before, after)

inductive TemplateFault
  | unclosedToken
  | nestedToken
  | braceInToken
  | secondToken
  | pattern (fault : PatternFault)
  deriving DecidableEq, Repr

def TemplateFault.message : TemplateFault → String
  | unclosedToken => "date-time token is never closed with '\x7d'"
  | nestedToken => "nested date-time tokens are not allowed"
  | braceInToken => "'\x7b' is not allowed inside a date-time token"
  | secondToken => "only one date-time token is allowed"
  | pattern fault => fault.message

/-- The body of a token and what follows the token, given what follows `%{`. -/
def tokenBody (cs : List Char) : Except TemplateFault (List Char × List Char) :=
  match splitAtClose cs with
  | none => .error .unclosedToken
  | some (body, after) =>
    if (splitAtOpen body).isSome then .error .nestedToken
    else if body.contains '{' then .error .braceInToken
    else .ok (body, after)

/-- A token between the texts on either side of it. -/
structure Token where
  before : List Char
  pattern : Pattern
  after : List Char
  deriving DecidableEq, Repr

/-- A template that has been read: the text it was read from and its token, if
it has one. -/
structure Template where
  source : List Char
  token : Option Token
  deriving DecidableEq, Repr

namespace Template

/-- Reads a template.  The first token is read whole before anything after it is
looked at, and a second one is refused as such only when its body is sound. -/
def parse (cs : List Char) : Except TemplateFault Template :=
  match splitAtOpen cs with
  | none => .ok ⟨cs, none⟩
  | some (before, rest) => do
    let (body, after) ← tokenBody rest
    match Pattern.parse body with
    | .error fault => .error (.pattern fault)
    | .ok pattern =>
      match splitAtOpen after with
      | none => return ⟨cs, some ⟨before, pattern, after⟩⟩
      | some (_, more) => do
        let _ ← tokenBody more
        .error .secondToken

def hasToken (t : Template) : Bool := t.token.isSome

def render (t : Template) (now : Instant) : List Char :=
  match t.token with
  | none => t.source
  | some token => token.before ++ token.pattern.render now ++ token.after

end Template

end RecordArchive.Naming
