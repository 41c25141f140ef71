import SchemaDoc.Json.Basic
import SchemaDoc.Json.Fault

/-! JSON texts as they are written, up to the place where they go wrong.
Every text has such a form. It keeps members in order, repeated ones too, and marks what only a
reader that takes no interest in a value may pass over.
-/

namespace SchemaDoc.Json

/-- How the items of an array or the members of an object end: properly, or in a fault, which
may come behind a comma.
-/
structure Ending where
  fault : Option Fault
  afterComma : Bool
  deriving DecidableEq, Repr

/-- A proper end. -/
def Ending.closed : Ending := ⟨none, false⟩

/-- A JSON text as it is written. A doubtful value is refused by a reader that wants to know it,
and a broken one by every reader; what follows a broken value is not known.
-/
inductive Written where
  | null
  | bool (b : Bool)
  | number (n : Number)
  | string (text : String)
  | array (items : List Written) (ending : Ending)
  | object (members : List (Except Fault String × Written)) (ending : Ending)
  | doubtful (fault : Fault) (value : Written)
  | broken (fault : Fault)
  deriving Repr

namespace Written

/-- What was read off a text: a value, and the text behind it unless that is not known. -/
abbrev Scanned (α : Type) := α × Option (List Char)

/-- The characters that may stand between the parts of a JSON text. -/
def isBlank (c : Char) : Bool := c == ' ' || c == '\n' || c == '\t' || c == '\r'

/-- A text without the blanks in front of it. -/
def skipBlanks (text : List Char) : List Char := text.dropWhile isBlank

/-- A value that is broken by a flaw of the character at the front of a text. -/
def brokenAt (flaw : Flaw) (rest : List Char) : Scanned Written :=
  (broken (.peeked flaw rest), none)

end Written

end SchemaDoc.Json
