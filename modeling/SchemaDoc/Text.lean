import SchemaDoc.Text.Printable

/-! Blank characters, which are trimmed off texts, and texts in quotes, as diagnostics show them.
What could not be read off a screen is written as an escape there, so every quoted form is a single
printable line.
-/

namespace SchemaDoc.Text

-----------------------------------------------------------------------------------------
-- Blank characters
-----------------------------------------------------------------------------------------

/-- Whether a character has the Unicode property `White_Space`, as twenty-five characters have. -/
def isBlank (c : Char) : Bool :=
  let n := c.toNat
  (0x09 ≤ n && n ≤ 0x0D) || n == 0x20 || n == 0x85 || n == 0xA0 || n == 0x1680
    || (0x2000 ≤ n && n ≤ 0x200A) || n == 0x2028 || n == 0x2029 || n == 0x202F
    || n == 0x205F || n == 0x3000

/-- The text without the blank characters at its two ends. -/
def trim (text : List Char) : List Char :=
  ((text.dropWhile isBlank).reverse.dropWhile isBlank).reverse

/-- No graphic character of ASCII is blank. -/
theorem not_isBlank_of_isGraphic {c : Char} (above : 0x20 < c.toNat) (below : c.toNat < 0x7F)
    : isBlank c = false := by
  cases blank : isBlank c with
  | false => rfl
  | true =>
      simp only [isBlank, Bool.or_eq_true, Bool.and_eq_true, beq_iff_eq, decide_eq_true_eq]
        at blank
      omega

-----------------------------------------------------------------------------------------
-- Quotes
-----------------------------------------------------------------------------------------

/-- The digits of a code point in base sixteen, lower case and without padding. -/
def hexDigits (n : Nat) : List Char := Nat.toDigits 16 n

/-- A code point by its number, as in `\u{301}`. -/
def numericEscape (c : Char) : List Char :=
  ['\\', 'u', '\x7b'] ++ hexDigits c.toNat ++ ['\x7d']

/-- The form of a character between quotes of the kind given: four controls, the backslash
and the quote itself have a short escape, and what is not printable has a numeric one.
-/
def escapeWithin (quote c : Char) : List Char :=
  if c = '\x00' then ['\\', '0']
  else if c = '\t' then ['\\', 't']
  else if c = '\r' then ['\\', 'r']
  else if c = '\n' then ['\\', 'n']
  else if c = '\\' || c = quote then ['\\', c]
  else if isPrintable c then [c]
  else numericEscape c

/-- A character in single quotes. -/
def quoteChar (c : Char) : String :=
  String.ofList (['\x27'] ++ escapeWithin '\x27' c ++ ['\x27'])

/-- A text in double quotes. -/
def quoteString (text : String) : String :=
  String.ofList (['"'] ++ text.toList.flatMap (escapeWithin '"') ++ ['"'])

end SchemaDoc.Text
