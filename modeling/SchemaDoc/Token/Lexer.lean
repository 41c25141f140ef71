import SchemaDoc.Token.Lexeme

/-! The tokens of a schema text, each with its place, and the characters that begin none.
A permissive reading skips those characters; a strict one refuses the first of them.
-/

namespace SchemaDoc

/-- A place in a text: the offset counts UTF-8 bytes, and lines and columns count from one. Their
counters have 32 bits and begin again at zero where that is too few.
-/
structure Position where
  offset : Nat
  line : UInt32
  column : UInt32
  deriving DecidableEq, Repr, Inhabited

namespace Position

/-- The place of the first character of a text. -/
def start : Position := ⟨0, 1, 1⟩

/-- The place behind a character: only a line break begins a new line. -/
def next (position : Position) (c : Char) : Position :=
  if c = '\n' then ⟨position.offset + c.utf8Size, position.line + 1, 1⟩
  else ⟨position.offset + c.utf8Size, position.line, position.column + 1⟩

/-- The place behind a stretch of text. -/
def after (position : Position) (text : List Char) : Position := text.foldl next position

end Position

/-- A character that begins no token, and where it stands. -/
structure Skipped where
  character : Char
  position : Position
  deriving DecidableEq, Repr

namespace Skipped

/-- A skipped character as diagnostics state it. -/
def message (skipped : Skipped) : String :=
  "unexpected character " ++ Text.quoteChar skipped.character ++ " at "
    ++ toString skipped.position.line ++ ":" ++ toString skipped.position.column

/-- What a diagnostic advises against skipped characters. -/
def help : String := "disable strict lexing to skip unrecognized characters"

end Skipped

/-- The tokens of a text and the characters that were skipped, both in source order. -/
structure Scan where
  tokens : List Token
  skipped : List Skipped
  deriving DecidableEq, Repr

/-- The token of a lexeme that stands at the place given. -/
def Lexeme.toToken (lexeme : Lexeme) (position : Position) : Token :=
  { kind := lexeme.kind
    text := String.ofList lexeme.text
    line := position.line
    column := position.column
    span := ⟨position.offset, (position.after lexeme.source).offset⟩ }

/-- The token that marks the end of the input. -/
def Token.ending (position : Position) : Token :=
  ⟨.endOfInput, "", position.line, position.column, ⟨position.offset, position.offset⟩⟩

namespace Scan

/-- The scan of a text that stands at the place given. -/
def ofChars (position : Position) : List Char → Scan
  | [] => ⟨[.ending position], []⟩
  | c :: rest =>
      if c ≠ '\n' ∧ Text.isBlank c then ofChars (position.next c) rest
      else
        match _h : Lexeme.first? (c :: rest) with
        | some lexeme =>
            let scan := ofChars (position.after lexeme.source) lexeme.rest
            { scan with tokens := lexeme.toToken position :: scan.tokens }
        | none =>
            let scan := ofChars (position.next c) rest
            { scan with skipped := ⟨c, position⟩ :: scan.skipped }
termination_by text => text.length
decreasing_by
  · simp
  · exact Lexeme.rest_length_lt _h
  · simp

/-- The scan of a whole text. -/
def ofText (text : String) : Scan := ofChars .start text.toList

end Scan

/-- The tokens of a text; characters that begin none are left out. -/
def tokenize (text : String) : List Token := (Scan.ofText text).tokens

/-- The tokens of a text, unless some character begins none; then the first such one. -/
def tokenizeStrict (text : String) : Except Skipped (List Token) :=
  let scan := Scan.ofText text
  match scan.skipped with
  | [] => .ok scan.tokens
  | skipped :: _ => .error skipped

end SchemaDoc
