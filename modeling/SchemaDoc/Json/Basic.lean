import SchemaDoc.Binary64.Shortest

/-! JSON values, with objects as lists of members in order, and their two written layouts.
The compact layout has no blanks at all; the indented one puts every item on a line of its own.
-/

namespace SchemaDoc

/-- A JSON number: whole numbers of up to sixty-four bits are kept exactly. -/
inductive Json.Number where
  | integer (n : Int)
  | float (x : Binary64)
  deriving DecidableEq, Repr, Inhabited

/-- A JSON value. -/
inductive Json where
  | null
  | bool (b : Bool)
  | number (n : Json.Number)
  | string (text : String)
  | array (items : List Json)
  | object (members : List (String × Json))
  deriving Repr, Inhabited

namespace Json

/-- How a value is laid out. -/
inductive Layout where
  | compact
  | indented
  deriving DecidableEq, Repr

/-- A number as it is written. -/
def Number.render : Number → List Char
  | integer n => (toString n).toList
  | float x => x.toCompact.toList

/-- A digit in base sixteen, lower case. -/
def hexDigit (n : Nat) : Char := Nat.digitChar (n % 16)

/-- A character as it is written inside a text: quotes, backslashes and the controls below the
space are escaped, and nothing else is.
-/
def escapeChar (c : Char) : List Char :=
  if c = '"' then ['\\', '"']
  else if c = '\\' then ['\\', '\\']
  else if c = '\x08' then ['\\', 'b']
  else if c = '\t' then ['\\', 't']
  else if c = '\n' then ['\\', 'n']
  else if c = '\x0c' then ['\\', 'f']
  else if c = '\r' then ['\\', 'r']
  else if c.toNat < 0x20 then
    ['\\', 'u', '0', '0', hexDigit (c.toNat / 16), hexDigit c.toNat]
  else [c]

/-- A text with its quotes. -/
def renderString (text : String) : List Char :=
  '"' :: text.toList.flatMap escapeChar ++ ['"']

namespace Layout

/-- What goes in front of an item at a depth: nothing, or a line break and two blanks a level.
-/
def lineBreak (layout : Layout) (depth : Nat) : List Char :=
  match layout with
  | compact => []
  | indented => '\n' :: List.replicate (2 * depth) ' '

/-- What goes between the name of a member and its value. -/
def colon : Layout → List Char
  | compact => [':']
  | indented => [':', ' ']

end Layout

mutual

/-- A value as it is written at a depth. -/
def render (layout : Layout) (depth : Nat) : Json → List Char
  | null => ['n', 'u', 'l', 'l']
  | bool true => ['t', 'r', 'u', 'e']
  | bool false => ['f', 'a', 'l', 's', 'e']
  | number n => n.render
  | string text => renderString text
  | array [] => ['[', ']']
  | array (item :: items) =>
      '[' :: layout.lineBreak (depth + 1) ++ render layout (depth + 1) item
        ++ renderItems layout depth items
  | object [] => ['\x7b', '\x7d']
  | object ((name, value) :: members) =>
      '\x7b' :: layout.lineBreak (depth + 1) ++ renderString name ++ layout.colon
        ++ render layout (depth + 1) value ++ renderMembers layout depth members

/-- The items behind the first one of an array, with its closing bracket. -/
def renderItems (layout : Layout) (depth : Nat) : List Json → List Char
  | [] => layout.lineBreak depth ++ [']']
  | item :: items =>
      ',' :: layout.lineBreak (depth + 1) ++ render layout (depth + 1) item
        ++ renderItems layout depth items

/-- The members behind the first one of an object, with its closing brace. -/
def renderMembers (layout : Layout) (depth : Nat) : List (String × Json) → List Char
  | [] => layout.lineBreak depth ++ ['\x7d']
  | (name, value) :: members =>
      ',' :: layout.lineBreak (depth + 1) ++ renderString name ++ layout.colon
        ++ render layout (depth + 1) value ++ renderMembers layout depth members

end

/-- A whole value as a text. -/
def toText (layout : Layout) (value : Json) : String := String.ofList (render layout 0 value)

end Json

end SchemaDoc
