/-! What can be wrong with a JSON text, where it is, and how a diagnostic says so.
Columns count bytes, and a fault at a character that was only looked at points behind it.
-/

namespace SchemaDoc.Json

/-- Why a text is no JSON. -/
inductive Flaw where
  | endInArray
  | endInObject
  | endInString
  | endInValue
  | endInNumber
  | expectedColon
  | expectedCommaInArray
  | expectedCommaInObject
  | expectedWord
  | expectedValue
  | invalidEscape
  | invalidNumber
  | numberOutOfRange
  | controlCharacter
  | keyNotString
  | loneSurrogate
  | trailingComma
  | trailingCharacters
  | cutEscape
  | tooDeep
  deriving DecidableEq, Repr

namespace Flaw

/-- Whether the text stopped before the value did. -/
def isEnd : Flaw → Bool
  | endInArray | endInObject | endInString | endInValue | endInNumber => true
  | _ => false

/-- A flaw as diagnostics state it. -/
def message : Flaw → String
  | endInArray => "EOF while parsing a list"
  | endInObject => "EOF while parsing an object"
  | endInString => "EOF while parsing a string"
  | endInValue | endInNumber => "EOF while parsing a value"
  | expectedColon => "expected `:`"
  | expectedCommaInArray => "expected `,` or `]`"
  | expectedCommaInObject => "expected `,` or `\x7d`"
  | expectedWord => "expected ident"
  | expectedValue => "expected value"
  | invalidEscape => "invalid escape"
  | invalidNumber => "invalid number"
  | numberOutOfRange => "number out of range"
  | controlCharacter =>
      "control character (\\u0000-\\u001F) found while parsing a string"
  | keyNotString => "key must be a string"
  | loneSurrogate => "lone leading surrogate in hex escape"
  | trailingComma => "trailing comma"
  | trailingCharacters => "trailing characters"
  | cutEscape => "unexpected end of hex escape"
  | tooDeep => "recursion limit exceeded"

end Flaw

/-- A flaw and its place: the number of characters from it to the end of the text, and how many
bytes behind that place it points at.
-/
structure Fault where
  flaw : Flaw
  remaining : Nat
  behind : Nat
  deriving DecidableEq, Repr

namespace Fault

/-- A flaw of a character at the front of a text that was looked at, or of the end of it. -/
def peeked (flaw : Flaw) (rest : List Char) : Fault :=
  ⟨flaw, rest.length, if rest.isEmpty then 0 else 1⟩

/-- A flaw in front of a text. -/
def taken (flaw : Flaw) (rest : List Char) : Fault := ⟨flaw, rest.length, 0⟩

/-- The line and the column behind a text, from the one it starts at; columns count bytes. -/
def advance : Nat × Nat → Char → Nat × Nat
  | (line, column), c => if c = '\n' then (line + 1, 0) else (line, column + c.utf8Size)

/-- The line and the column of a fault in a text. -/
def position (fault : Fault) (text : String) : Nat × Nat :=
  let chars := text.toList
  let (line, column) := (chars.take (chars.length - fault.remaining)).foldl advance (1, 0)
  (line, column + fault.behind)

/-- A fault in a text as diagnostics state it. -/
def message (fault : Fault) (text : String) : String :=
  let (line, column) := fault.position text
  fault.flaw.message ++ " at line " ++ toString line ++ " column " ++ toString column

end Fault

end SchemaDoc.Json
