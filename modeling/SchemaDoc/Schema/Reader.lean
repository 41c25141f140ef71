import SchemaDoc.Schema.Reader.Declaration
import SchemaDoc.Token.Lexer

/-! Reading a schema from a token list or from a text. Only what stands in front of the first end
of the input counts, and blanks and plain comments have no part in the grammar.
-/

namespace SchemaDoc

namespace Token

/-- The tokens that have a part in the grammar. -/
def significant (tokens : List Token) : List Token := tokens.filter fun token => !token.isTrivia

/-- The significant tokens in front of the first end of the input. -/
def beforeEnd (tokens : List Token) : List Token :=
  (significant tokens).takeWhile (·.kind ≠ .endOfInput)

/-- The first end of the input. A list without one ends where its last significant token
stands, with a text of the size given.
-/
def firstEnd (tokens : List Token) (size : Nat) : Token :=
  let significant := significant tokens
  (significant.find? (·.kind = .endOfInput)).getD
    { kind := .endOfInput
      text := ""
      line := significant.getLast?.elim 1 Token.line
      column := significant.getLast?.elim 1 Token.column
      span := ⟨size, size⟩ }

end Token

/-- Why a text is no schema. -/
inductive SourceError where
  | unknownCharacter (skipped : Skipped)
  | malformed (error : SyntaxError)
  deriving DecidableEq, Repr

namespace Schema

/-- The schema that declarations make up. -/
def ofDeclarations (declarations : List Declaration) : Schema :=
  ⟨declarations.filterMap Declaration.model?, declarations.filterMap Declaration.enum?⟩

/-- The schema that tokens of a text of the size given denote. -/
def ofTokens (tokens : List Token) (size : Nat) : Except SyntaxError Schema :=
  let ending := Token.firstEnd tokens size
  match Production.declarations ⟨ending, Token.beforeEnd tokens⟩ with
  | .ok (declarations, _) => .ok (ofDeclarations declarations)
  | .error fault => .error (.ofFault fault ending)

/-- The schema that a text denotes. A strict reading refuses a character that begins no token
before it looks at the grammar.
-/
def ofText (strict : Bool) (text : String) : Except SourceError Schema :=
  let read (tokens : List Token) := (ofTokens tokens text.utf8ByteSize).mapError .malformed
  if strict then
    match tokenizeStrict text with
    | .ok tokens => read tokens
    | .error skipped => .error (.unknownCharacter skipped)
  else read (tokenize text)

end Schema

end SchemaDoc
