/-! Blanks, line breaks and comments in TOML text, and how much of a text they take up.
A line break is a line feed, with or without a carriage return in front of it.
-/

namespace SchemaDoc.Toml

/-- The characters that may stand between the parts of a line. -/
def isBlank (c : Char) : Bool := c == ' ' || c == '\t'

/-- Whether a character is a control, which only escapes can express; the tab is none. -/
def isControl (c : Char) : Bool := (c.toNat < 0x20 && c != '\t') || c.toNat == 0x7f

/-- A text without the blanks in front of it. -/
def dropBlanks (text : List Char) : List Char := text.dropWhile isBlank

/-- The text behind the line break at its front. -/
def behindBreak? : List Char → Option (List Char)
  | '\n' :: rest => some rest
  | '\r' :: '\n' :: rest => some rest
  | _ => none

/-- A text without the blanks and line breaks in front of it. -/
def dropBlankLines : List Char → List Char
  | '\r' :: '\n' :: rest => dropBlankLines rest
  | c :: rest => if isBlank c || c == '\n' then dropBlankLines rest else c :: rest
  | [] => []

/-- A text without the blanks, line breaks and comments in front of it, read from inside or
from outside a comment. It stops inside a comment at a character that no comment holds.
-/
def dropLayout (inComment : Bool) : List Char → List Char
  | '\r' :: '\n' :: rest => dropLayout false rest
  | c :: rest =>
      if c = '\n' then dropLayout false rest
      else if inComment then (if isControl c then c :: rest else dropLayout true rest)
      else if isBlank c then dropLayout false rest
      else if c = '#' then dropLayout true rest
      else c :: rest
  | [] => []

/-- The text behind the end of a line, which a comment may come before. -/
def behindLine? (text : List Char) : Option (List Char) :=
  let rest :=
    match dropBlanks text with
    | '#' :: comment => comment.dropWhile fun c => !isControl c
    | rest => rest
  if rest.isEmpty then some [] else behindBreak? rest

theorem length_dropBlanks_le (text : List Char) : (dropBlanks text).length ≤ text.length :=
  (text.dropWhile_sublist _).length_le

theorem length_dropBlankLines_le (text : List Char)
    : (dropBlankLines text).length ≤ text.length := by
  fun_induction dropBlankLines text <;> grind

theorem length_of_behindBreak? {text rest : List Char} (h : behindBreak? text = some rest)
    : rest.length < text.length := by
  unfold behindBreak? at h
  split at h
  · cases h
    simp
  · cases h
    exact Nat.lt_add_of_pos_right (Nat.succ_pos 1)
  · cases h

end SchemaDoc.Toml
