import SchemaDoc.Toml.Blank

/-! Quoted texts in TOML: the four styles, how a text is read and how it is written.
A basic style has escapes and a literal one has none. A multi-line style may hold line breaks,
and up to two of its quote marks in a row.
-/

namespace SchemaDoc.Toml

/-- A style of quoting. -/
structure Style where
  isBasic : Bool
  isMultiline : Bool
  deriving DecidableEq, Repr

namespace Style

/-- The quote mark of a style. -/
def mark (style : Style) : Char := if style.isBasic then '"' else '\x27'

/-- What stands in front of a text and behind it. -/
def quote (style : Style) : List Char :=
  List.replicate (if style.isMultiline then 3 else 1) style.mark

/-- The number of quote marks in a row that a text may hold. -/
def maxMarks (style : Style) : Nat := if style.isMultiline then 2 else 0

end Style

/-! ### Reading -/

/-- The value of a digit in base sixteen. -/
def hexDigit? (c : Char) : Option Nat :=
  if c.isDigit then some (c.toNat - '0'.toNat)
  else if 'a' ≤ c ∧ c ≤ 'f' then some (c.toNat - 'a'.toNat + 10)
  else if 'A' ≤ c ∧ c ≤ 'F' then some (c.toNat - 'A'.toNat + 10)
  else none

/-- The character whose number the first digits of a text give in base sixteen. -/
def scalar? (digits : Nat) (text : List Char) : Option (Char × List Char) := do
  let values ← (text.take digits).mapM hexDigit?
  let number := values.foldl (fun n digit => n * 16 + digit) 0
  if values.length = digits ∧ number.isValidChar then
    some (Char.ofNat number, text.drop digits)
  else none

/-- The character that an escape stands for, from behind its backslash. -/
def escape? : List Char → Option (Char × List Char)
  | [] => none
  | c :: rest =>
      match c with
      | 'b' => some ('\x08', rest)
      | 't' => some ('\t', rest)
      | 'n' => some ('\n', rest)
      | 'f' => some ('\x0c', rest)
      | 'r' => some ('\r', rest)
      | '"' => some ('"', rest)
      | '\\' => some ('\\', rest)
      | 'u' => scalar? 4 rest
      | 'U' => scalar? 8 rest
      | _ => none

/-- The text behind a line break that is escaped, from behind its backslash. Blanks may stand
in front of the break, and all blanks and breaks behind it go with it.
-/
def behindContinuation? (text : List Char) : Option (List Char) :=
  (behindBreak? (dropBlanks text)).map dropBlankLines

theorem length_of_scalar? {digits : Nat} {text rest : List Char} {c : Char}
    (h : scalar? digits text = some (c, rest))
    : rest.length ≤ text.length := by
  unfold scalar? at h
  simp only [Option.bind_eq_bind, Option.bind_eq_some_iff] at h
  obtain ⟨values, _, h⟩ := h
  split at h <;> simp at h
  simp [← h.2]

theorem length_of_escape? {text rest : List Char} {c : Char} (h : escape? text = some (c, rest))
    : rest.length < text.length := by
  unfold escape? at h
  split at h
  · simp at h
  · split at h <;> grind [→ length_of_scalar?]

theorem length_of_behindContinuation? {text rest : List Char}
    (h : behindContinuation? text = some rest)
    : rest.length < text.length := by
  unfold behindContinuation? at h
  obtain ⟨behind, hb, rfl⟩ := Option.map_eq_some_iff.1 h
  have := length_of_behindBreak? hb
  have := length_dropBlanks_le text
  have := length_dropBlankLines_le behind
  omega

/-- A text up to its closing quote, and what is behind that. Of several quote marks in a row
the last three close a multi-line text, and at most two come before them.
-/
def Style.scan (style : Style) (text : List Char) : Option (List Char × List Char) :=
  match text with
  | [] => none
  | c :: rest =>
      if c = style.mark then
        let marks := ((c :: rest).takeWhile (· = style.mark)).length
        if !style.isMultiline then some ([], rest)
        else if marks < 3 then
          (scan style rest).map fun (text, behind) => (c :: text, behind)
        else
          let kept := min (marks - 3) 2
          some (List.replicate kept c, (c :: rest).drop (kept + 3))
      else if c = '\\' ∧ style.isBasic then
        match _h : if style.isMultiline then behindContinuation? rest else none with
        | some behind => scan style behind
        | none =>
            match _h : escape? rest with
            | some (x, behind) =>
                (scan style behind).map fun (text, behind) => (x :: text, behind)
            | none => none
      else if style.isMultiline then
        match _h : behindBreak? (c :: rest) with
        | some behind =>
            (scan style behind).map fun (text, behind) => ('\n' :: text, behind)
        | none =>
            if isControl c then none
            else (scan style rest).map fun (text, behind) => (c :: text, behind)
      else if isControl c then none
      else (scan style rest).map fun (text, behind) => (c :: text, behind)
termination_by text.length
decreasing_by
  · simp
  · split at _h
    · have := length_of_behindContinuation? _h
      simp only [List.length_cons]
      omega
    · simp at _h
  · have := length_of_escape? _h
    simp only [List.length_cons]
    omega
  · exact length_of_behindBreak? _h
  · simp
  · simp

/-- The style of the quote at the front of a text, and the text behind it. A line break right
behind the quote does not count.
-/
def openStyle? : List Char → Option (Style × List Char)
  | '"' :: '"' :: '"' :: rest => some (⟨true, true⟩, (behindBreak? rest).getD rest)
  | '\x27' :: '\x27' :: '\x27' :: rest => some (⟨false, true⟩, (behindBreak? rest).getD rest)
  | '"' :: rest => some (⟨true, false⟩, rest)
  | '\x27' :: rest => some (⟨false, false⟩, rest)
  | _ => none

/-- The quoted text at the front of a text, and what is behind it. -/
def scanQuoted (text : List Char) : Option (String × List Char) := do
  let (style, rest) ← openStyle? text
  let (content, behind) ← style.scan rest
  some (String.ofList content, behind)

/-! ### Writing -/

/-- The greatest number of times that a character stands in a row, after some number already.
-/
def longestRun (mark : Char) (run : Nat) : List Char → Nat
  | [] => run
  | c :: rest =>
      if c = mark then longestRun mark (run + 1) rest
      else max run (longestRun mark 0 rest)

namespace Style

/-- Whether a style can hold a text as it is. -/
def fits (style : Style) (text : List Char) : Bool :=
  text.all (fun c =>
    (c == '\n' && style.isMultiline) || !(isControl c || (c == '\\' && style.isBasic)))
    && longestRun style.mark 0 text ≤ style.maxMarks

/-- The style that a text is written in: the first one that can hold it as it is, or else a
basic one.
-/
def ofText (text : List Char) : Style :=
  let styles : List Style := [⟨true, false⟩, ⟨false, false⟩, ⟨true, true⟩, ⟨false, true⟩]
  (styles.find? (·.fits text)).getD ⟨true, text.contains '\n'⟩

/-- A digit in base sixteen, upper case. -/
def upperHex (n : Nat) : Char := (Nat.digitChar (n % 16)).toUpper

/-- A character other than a quote mark as a basic style writes it. -/
def escapeChar (style : Style) (c : Char) : List Char :=
  if c = '\\' then ['\\', '\\']
  else if c = '\t' then ['\\', 't']
  else if c = '\n' then (if style.isMultiline then ['\n'] else ['\\', 'n'])
  else if c = '\x08' then ['\\', 'b']
  else if c = '\x0c' then ['\\', 'f']
  else if c = '\r' then ['\\', 'r']
  else if isControl c then
    ['\\', 'u', '0', '0', upperHex (c.toNat / 16), upperHex c.toNat]
  else [c]

/-- A text as a basic style writes it behind some number of quote marks in a row; one mark too
many is escaped, and the count starts anew.
-/
def escapeFrom (style : Style) (marks : Nat) : List Char → List Char
  | [] => []
  | c :: rest =>
      if c = '"' then
        if marks < style.maxMarks then '"' :: escapeFrom style (marks + 1) rest
        else '\\' :: '"' :: escapeFrom style 0 rest
      else style.escapeChar c ++ escapeFrom style 0 rest

/-- A text with its quotes. A multi-line text that has a line break starts on a line of its
own.
-/
def write (style : Style) (text : List Char) : List Char :=
  let start := if style.isMultiline && text.contains '\n' then ['\n'] else []
  let body := if style.isBasic then style.escapeFrom 0 text else text
  style.quote ++ start ++ body ++ style.quote

end Style

/-- A text with its quotes, in the style that suits it. -/
def writeQuoted (text : String) : List Char := (Style.ofText text.toList).write text.toList

end SchemaDoc.Toml
