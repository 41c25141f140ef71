import SchemaDoc.Token

/-! What can be wrong with a token list, and how a diagnostic says so.
A fault carries the token it was found at; none stands for the end of the input.
-/

namespace SchemaDoc

/-- What a place in a schema has to hold. -/
inductive Expectation where
  | token (kind : TokenKind)
  | declaration
  | modelName
  | enumName
  | blockName
  | fieldOrAttribute
  | valueOrAttribute
  | fieldName
  | fieldType
  | attributeName
  | nameAfterDot
  | attributeValue
  | listItem
  deriving DecidableEq, Repr

/-- An expectation as diagnostics state it. -/
def Expectation.describe : Expectation → String
  | token kind => kind.describe
  | declaration => "'model', 'enum', 'datasource' or 'generator'"
  | modelName => "model name"
  | enumName => "enum name"
  | blockName => "block name"
  | fieldOrAttribute => "field or '@@' attribute"
  | valueOrAttribute => "enum value or '@@' attribute"
  | fieldName => "field name"
  | fieldType => "field type"
  | attributeName => "attribute name"
  | nameAfterDot => "name after '.'"
  | attributeValue => "attribute value"
  | listItem => "list item"

/-- Why a token list is no schema. -/
inductive Fault where
  | unexpected (expected : Expectation) (found : Option Token)
  | unreadableNumber (token : Token)
  deriving DecidableEq, Repr

namespace Fault

/-- The token a fault was found at, which is the given one at the end of the input. -/
def place (fault : Fault) (ending : Token) : Token :=
  match fault with
  | unexpected _ found => found.getD ending
  | unreadableNumber token => token

/-- A fault as diagnostics state it. -/
def message : Fault → String
  | unexpected expected found =>
      let found := found.elim TokenKind.endOfInput.describe Token.describe
      "expected " ++ expected.describe ++ ", found " ++ found
  | unreadableNumber token => "invalid number '" ++ token.text ++ "'"

end Fault

/-- A fault together with the place that a diagnostic points at. -/
structure SyntaxError where
  fault : Fault
  line : UInt32
  column : UInt32
  span : Span
  deriving DecidableEq, Repr

namespace SyntaxError

/-- The error for a fault in a token list that ends with the token given. -/
def ofFault (fault : Fault) (ending : Token) : SyntaxError :=
  let token := fault.place ending
  ⟨fault, token.line, token.column, token.span⟩

/-- The error as diagnostics state it. -/
def message (error : SyntaxError) : String :=
  "syntax error at " ++ toString error.line ++ ":" ++ toString error.column ++ ": "
    ++ error.fault.message

end SyntaxError

end SchemaDoc
