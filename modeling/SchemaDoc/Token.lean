import SchemaDoc.Span

/-! The tokens of schema text: their kinds, how diagnostics name them, and where they stand.
A keyword is a word like any other except where a declaration may begin.
-/

namespace SchemaDoc

/-- What a token is. -/
inductive TokenKind where
  | identifier
  | string
  | number
  | boolean
  | model
  | enum
  | datasource
  | generator
  | leftBrace
  | rightBrace
  | leftParen
  | rightParen
  | leftBracket
  | rightBracket
  | atSign
  | doubleAt
  | question
  | colon
  | comma
  | equals
  | dot
  | docComment
  | comment
  | newline
  | endOfInput
  deriving DecidableEq, Repr, Inhabited

namespace TokenKind

/-- The name of a kind in diagnostics. -/
def describe : TokenKind → String
  | identifier => "identifier"
  | string => "string"
  | number => "number"
  | boolean => "boolean"
  | model => "'model'"
  | enum => "'enum'"
  | datasource => "'datasource'"
  | generator => "'generator'"
  | leftBrace => "'\x7b'"
  | rightBrace => "'\x7d'"
  | leftParen => "'('"
  | rightParen => "')'"
  | leftBracket => "'['"
  | rightBracket => "']'"
  | atSign => "'@'"
  | doubleAt => "'@@'"
  | question => "'?'"
  | colon => "':'"
  | comma => "','"
  | equals => "'='"
  | dot => "'.'"
  | docComment => "doc comment"
  | comment => "comment"
  | newline => "newline"
  | endOfInput => "end of input"

/-- Line breaks and plain comments have no part in the grammar. -/
def isTrivia : TokenKind → Bool
  | newline | comment => true
  | _ => false

/-- Identifiers and keywords can name things inside a declaration. -/
def isWord : TokenKind → Bool
  | identifier | model | enum | datasource | generator => true
  | _ => false

/-- The words that have a kind of their own, in any letter case. -/
def keywords : List (String × TokenKind) :=
  [("model", model), ("enum", enum), ("datasource", datasource), ("generator", generator),
    ("true", boolean), ("false", boolean)]

/-- The kind of a word: that of a keyword it spells in some letter case, else identifier. -/
def ofWord (word : List Char) : TokenKind :=
  let folded := word.map Char.toLower
  (keywords.find? (·.1.toList == folded)).elim identifier Prod.snd

/-- The kind of a character that is a token by itself. -/
def ofSymbol? : Char → Option TokenKind
  | '\x7b' => some leftBrace
  | '\x7d' => some rightBrace
  | '(' => some leftParen
  | ')' => some rightParen
  | '[' => some leftBracket
  | ']' => some rightBracket
  | '@' => some atSign
  | '?' => some question
  | ':' => some colon
  | ',' => some comma
  | '=' => some equals
  | '.' => some dot
  | _ => none

end TokenKind

/-- A token with its text, the line and column of its first character, and its byte range.
The text of a string is what stands between its quotes, that of a comment its trimmed body.
-/
structure Token where
  kind : TokenKind
  text : String
  line : UInt32
  column : UInt32
  span : Span
  deriving DecidableEq, Repr, Inhabited

namespace Token

/-- Whether a token can name something inside a declaration. -/
def isWord (token : Token) : Bool := token.kind.isWord

/-- Whether a token has no part in the grammar. -/
def isTrivia (token : Token) : Bool := token.kind.isTrivia

/-- A token as diagnostics name it: its kind, and its text unless the input ends there. -/
def describe (token : Token) : String :=
  if token.kind = .endOfInput then token.kind.describe
  else token.kind.describe ++ " '" ++ token.text ++ "'"

end Token

end SchemaDoc
