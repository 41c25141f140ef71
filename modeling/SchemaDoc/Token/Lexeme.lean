import SchemaDoc.Token
import SchemaDoc.Text

/-! The lexemes of schema text: what token, if any, begins at a place, and how far it reaches.
A lexeme and the text behind it always make up the text it was read from, and it is not empty.
-/

namespace SchemaDoc

/-- A token cut off the front of a text, with the characters it was written as. -/
structure Lexeme where
  kind : TokenKind
  text : List Char
  source : List Char
  rest : List Char
  deriving DecidableEq, Repr

namespace Lexeme

/-- A token written as its own text. -/
def verbatim (kind : TokenKind) (source rest : List Char) : Lexeme :=
  ⟨kind, source, source, rest⟩

/-- The content of a string behind its opening quote, the characters that spell it with the
closing quote, and the text that follows. A backslash stands for the character behind it, and
a string that is never closed reaches to the end of the text.
-/
def stringBody (quote : Char) : List Char → List Char × List Char × List Char
  | [] => ([], [], [])
  | c :: rest =>
      if c = quote then ([], [c], rest)
      else if c = '\\' then
        match rest with
        | [] => ([], [c], [])
        | escaped :: rest =>
            let (content, source, rest) := stringBody quote rest
            (escaped :: content, c :: escaped :: source, rest)
      else
        let (content, source, rest) := stringBody quote rest
        (c :: content, c :: source, rest)

/-- A string with the quote it begins with. -/
def string (quote : Char) (afterQuote : List Char) : Lexeme :=
  let (content, source, rest) := stringBody quote afterQuote
  ⟨.string, content, quote :: source, rest⟩

/-- A comment behind its slashes; it ends before the line does. -/
def comment (kind : TokenKind) (slashes afterSlashes : List Char) : Lexeme :=
  let body := afterSlashes.takeWhile (· ≠ '\n')
  ⟨kind, Text.trim body, slashes ++ body, afterSlashes.dropWhile (· ≠ '\n')⟩

/-- The characters that may stand in a number behind its first digit. -/
def isNumberPart (c : Char) : Bool := c.isDigit || c == '.'

/-- A number: an optional sign that is already read, then digits and dots. -/
def number (sign afterSign : List Char) : Lexeme :=
  verbatim .number (sign ++ afterSign.takeWhile isNumberPart) (afterSign.dropWhile isNumberPart)

/-- The characters that may begin a word. -/
def isWordStart (c : Char) : Bool := c.isAlpha || c == '_'

/-- The characters that may stand in a word. -/
def isWordPart (c : Char) : Bool := c.isAlphanum || c == '_'

/-- A word: letters, digits and underscores. -/
def word (text : List Char) : Lexeme :=
  let source := text.takeWhile isWordPart
  verbatim (.ofWord source) source (text.dropWhile isWordPart)

/-- The token that begins with the first character of a text, if one does. -/
def first? : List Char → Option Lexeme
  | [] => none
  | '\n' :: rest => some (verbatim .newline ['\n'] rest)
  | '/' :: '/' :: '/' :: rest => some (comment .docComment ['/', '/', '/'] rest)
  | '/' :: '/' :: rest => some (comment .comment ['/', '/'] rest)
  | '@' :: '@' :: rest => some (verbatim .doubleAt ['@', '@'] rest)
  | '-' :: d :: rest => if d.isDigit then some (number ['-'] (d :: rest)) else none
  | c :: rest =>
      if c = '"' ∨ c = '\x27' then some (string c rest)
      else if c.isDigit then some (number [] (c :: rest))
      else if isWordStart c then some (word (c :: rest))
      else
        match TokenKind.ofSymbol? c with
        | some kind => some (verbatim kind [c] rest)
        | none => none

/-- The content of a string and what follows it are all that stood behind its quote. -/
theorem stringBody_append (quote : Char) (text : List Char)
    : (stringBody quote text).2.1 ++ (stringBody quote text).2.2 = text := by
  fun_induction stringBody quote text <;> simp_all

/-- A lexeme is cut off the front of the text it was read from. -/
theorem source_append_rest {text : List Char} {lexeme : Lexeme}
    (h : first? text = some lexeme)
    : lexeme.source ++ lexeme.rest = text := by
  have takeDrop {p : Char → Bool} (cs : List Char)
      : cs.takeWhile p ++ cs.dropWhile p = cs := List.takeWhile_append_dropWhile
  fun_cases first? text <;>
    grind [first?, verbatim, comment, number, word, string, stringBody_append]

/-- A lexeme has at least one character. -/
theorem source_ne_nil {text : List Char} {lexeme : Lexeme} (h : first? text = some lexeme)
    : lexeme.source ≠ [] := by
  fun_cases first? text <;>
    grind [first?, verbatim, comment, number, word, string, isNumberPart, isWordPart,
      isWordStart, Char.isAlphanum, List.takeWhile_cons]

/-- What follows a lexeme is shorter than the text it was read from. -/
theorem rest_length_lt {text : List Char} {lexeme : Lexeme} (h : first? text = some lexeme)
    : lexeme.rest.length < text.length := by
  have split := congrArg List.length (source_append_rest h)
  have nonempty := List.length_pos_iff.mpr (source_ne_nil h)
  simp only [List.length_append] at split
  omega

end Lexeme

end SchemaDoc
