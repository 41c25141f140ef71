import SchemaDoc.Json.Written.Number
import SchemaDoc.Json.Written.Quoted

/-! Values as they are written in JSON: words, arrays and objects, and the form of a whole text.
-/

namespace SchemaDoc.Json

namespace Written

/-- The value that the rest of a word spells. -/
def scanWord (value : Written) : List Char → List Char → Scanned Written
  | [], rest => (value, some rest)
  | _ :: _, [] => (broken (.taken .endInValue []), none)
  | expected :: more, c :: rest =>
      if c = expected then scanWord value more rest
      else (broken (.taken .expectedWord rest), none)

/-- The number of arrays and objects that may lie inside one another. -/
def maxDepth : Nat := 127

/-- Marks an array or object as doubtful that lies in too many others. -/
def guardDepth (depth : Nat) (text : List Char) (value : Written) : Written :=
  if maxDepth ≤ depth then doubtful (.peeked .tooDeep text) value else value

mutual

/-- A value at a depth, with enough fuel for the text. -/
def scanValue (fuel depth : Nat) (text : List Char) : Scanned Written :=
  match fuel with
  | 0 => brokenAt .tooDeep text
  | fuel + 1 =>
      match skipBlanks text with
      | [] => brokenAt .endInValue []
      | 'n' :: rest => scanWord null ['u', 'l', 'l'] rest
      | 't' :: rest => scanWord (bool true) ['r', 'u', 'e'] rest
      | 'f' :: rest => scanWord (bool false) ['a', 'l', 's', 'e'] rest
      | '"' :: rest => scanString rest
      | '[' :: rest =>
          let (value, behind) := scanArray fuel (depth + 1) rest
          (guardDepth depth ('[' :: rest) value, behind)
      | '\x7b' :: rest =>
          let (value, behind) := scanObject fuel (depth + 1) rest
          (guardDepth depth ('\x7b' :: rest) value, behind)
      | c :: rest =>
          if c = '-' ∨ c.isDigit then scanNumber (c :: rest)
          else brokenAt .expectedValue (c :: rest)

/-- An array behind its opening bracket. -/
def scanArray (fuel depth : Nat) (text : List Char) : Scanned Written :=
  match fuel with
  | 0 => brokenAt .tooDeep text
  | fuel + 1 =>
      match skipBlanks text with
      | ']' :: rest => (array [] .closed, some rest)
      | [] => (array [] ⟨some (.peeked .endInArray []), false⟩, none)
      | text =>
          match scanValue fuel depth text with
          | (item, none) => (array [item] .closed, none)
          | (item, some rest) =>
              let ((items, ending), behind) := scanItems fuel depth rest
              (array (item :: items) ending, behind)

/-- The items behind the first one of an array, and how they end. -/
def scanItems (fuel depth : Nat) (text : List Char) : Scanned (List Written × Ending) :=
  match fuel with
  | 0 => (([], ⟨some (.peeked .tooDeep text), false⟩), none)
  | fuel + 1 =>
      match skipBlanks text with
      | ']' :: rest => (([], .closed), some rest)
      | [] => (([], ⟨some (.peeked .endInArray []), false⟩), none)
      | ',' :: rest =>
          match skipBlanks rest with
          | [] => (([], ⟨some (.peeked .endInValue []), true⟩), none)
          | ']' :: rest => (([], ⟨some (.peeked .trailingComma (']' :: rest)), true⟩), none)
          | text =>
              match scanValue fuel depth text with
              | (item, none) => (([item], .closed), none)
              | (item, some rest) =>
                  let ((items, ending), behind) := scanItems fuel depth rest
                  ((item :: items, ending), behind)
      | text => (([], ⟨some (.peeked .expectedCommaInArray text), false⟩), none)

/-- An object behind its opening brace. -/
def scanObject (fuel depth : Nat) (text : List Char) : Scanned Written :=
  match fuel with
  | 0 => brokenAt .tooDeep text
  | fuel + 1 =>
      match skipBlanks text with
      | '\x7d' :: rest => (object [] .closed, some rest)
      | [] => (object [] ⟨some (.peeked .endInObject []), false⟩, none)
      | '"' :: rest =>
          let ((members, ending), behind) := scanMember fuel depth rest
          (object members ending, behind)
      | text => (object [] ⟨some (.peeked .keyNotString text), false⟩, none)

/-- The members of an object from behind the opening quote of a name, and how they end. -/
def scanMember (fuel depth : Nat) (text : List Char)
    : Scanned (List (Except Fault String × Written) × Ending) :=
  match fuel with
  | 0 => (([], ⟨some (.peeked .tooDeep text), false⟩), none)
  | fuel + 1 =>
      match scanQuoted text with
      | .error fault => (([], ⟨some fault, false⟩), none)
      | .ok quoted =>
          let name := quoted.doubt.elim (.ok (String.ofList quoted.text)) .error
          match skipBlanks quoted.rest with
          | ':' :: rest =>
              match scanValue fuel depth rest with
              | (value, none) => (([(name, value)], .closed), none)
              | (value, some rest) =>
                  let ((members, ending), behind) := scanMembers fuel depth rest
                  (((name, value) :: members, ending), behind)
          | [] => (([(name, broken (.peeked .endInObject []))], .closed), none)
          | text => (([(name, broken (.peeked .expectedColon text))], .closed), none)

/-- The members behind the first one of an object, and how they end. -/
def scanMembers (fuel depth : Nat) (text : List Char)
    : Scanned (List (Except Fault String × Written) × Ending) :=
  match fuel with
  | 0 => (([], ⟨some (.peeked .tooDeep text), false⟩), none)
  | fuel + 1 =>
      match skipBlanks text with
      | '\x7d' :: rest => (([], .closed), some rest)
      | [] => (([], ⟨some (.peeked .endInObject []), false⟩), none)
      | ',' :: rest =>
          match skipBlanks rest with
          | '"' :: rest => scanMember fuel depth rest
          | [] => (([], ⟨some (.peeked .endInValue []), true⟩), none)
          | '\x7d' :: rest =>
              (([], ⟨some (.peeked .trailingComma ('\x7d' :: rest)), true⟩), none)
          | text => (([], ⟨some (.peeked .keyNotString text), true⟩), none)
      | text => (([], ⟨some (.peeked .expectedCommaInObject text), false⟩), none)

end

/-- The value that a whole text begins with, and the first thing behind it, if anything is. -/
def ofText (text : String) : Written × Option Fault :=
  let chars := text.toList
  match scanValue (3 * chars.length + 3) 0 chars with
  | (value, none) => (value, none)
  | (value, some rest) =>
      match skipBlanks rest with
      | [] => (value, none)
      | rest => (value, some (.peeked .trailingCharacters rest))

end Written

end SchemaDoc.Json
