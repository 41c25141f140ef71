import SchemaDoc.Json.Written

/-! Texts in quotes, as they are written in JSON: the escapes, and what they stand for. A half of a
pair of surrogates that stands alone leaves the text readable but doubtful.
-/

namespace SchemaDoc.Json

namespace Written

/-- The value of a digit in base sixteen. -/
def hexValue? (c : Char) : Option Nat :=
  if c.isDigit then some (c.toNat - '0'.toNat)
  else if 'a' ≤ c ∧ c ≤ 'f' then some (c.toNat - 'a'.toNat + 10)
  else if 'A' ≤ c ∧ c ≤ 'F' then some (c.toNat - 'A'.toNat + 10)
  else none

/-- The number of bytes of a text. -/
def byteCount (text : List Char) : Nat := text.foldl (fun n c => n + c.utf8Size) 0

/-- Four digits in base sixteen, and the text behind them. Without four bytes the text has
ended.
-/
def scanUnit : List Char → Except Fault (Nat × List Char)
  | a :: b :: c :: d :: rest =>
      match hexValue? a, hexValue? b, hexValue? c, hexValue? d with
      | some a, some b, some c, some d => .ok (((a * 16 + b) * 16 + c) * 16 + d, rest)
      | _, _, _, _ => .error ⟨.invalidEscape, rest.length + 4, 4⟩
  | text =>
      if byteCount text < 4 then .error (.taken .endInString [])
      else .error ⟨.invalidEscape, text.length, 4⟩

/-- Whether a unit is the first half of a pair. -/
def isHighSurrogate (unit : Nat) : Bool := 0xD800 ≤ unit && unit ≤ 0xDBFF

/-- Whether a unit is the second half of a pair. -/
def isLowSurrogate (unit : Nat) : Bool := 0xDC00 ≤ unit && unit ≤ 0xDFFF

/-- A character that was escaped, a doubt about it, and the text behind it. -/
structure Escape where
  character : Char
  doubt : Option Fault
  rest : List Char
  deriving Repr

/-- The second half of a pair whose first half has been read, from the text behind that. When
there is none, the escape is doubtful and the text behind the first half is read on.
-/
def scanPair (high : Nat) (text : List Char) : Escape :=
  let doubt (flaw : Flaw) (rest : List Char) (behind : Nat) : Escape :=
    ⟨'\x00', some ⟨flaw, rest.length, behind⟩, text⟩
  match text with
  | '\\' :: 'u' :: rest =>
      match scanUnit rest with
      | .error fault => ⟨'\x00', some fault, text⟩
      | .ok (low, behind) =>
          if isLowSurrogate low then
            ⟨Char.ofNat (0x10000 + (high - 0xD800) * 0x400 + (low - 0xDC00)), none, behind⟩
          else doubt .loneSurrogate behind 0
  | '\\' :: [] => doubt .endInString [] 0
  | '\\' :: rest => doubt .cutEscape rest 1
  | [] => doubt .endInString [] 0
  | rest => doubt .cutEscape rest 1

/-- The escape behind a backslash. -/
def scanEscape : List Char → Except Fault Escape
  | [] => .error (.taken .endInString [])
  | c :: rest =>
      let plain (character : Char) : Except Fault Escape := .ok ⟨character, none, rest⟩
      if c = '"' ∨ c = '\\' ∨ c = '/' then plain c
      else if c = 'b' then plain '\x08'
      else if c = 'f' then plain '\x0c'
      else if c = 'n' then plain '\n'
      else if c = 'r' then plain '\r'
      else if c = 't' then plain '\t'
      else if c = 'u' then
        match scanUnit rest with
        | .error fault => .error fault
        | .ok (unit, behind) =>
            if isLowSurrogate unit then
              .ok ⟨'\x00', some (.taken .loneSurrogate behind), behind⟩
            else if isHighSurrogate unit then .ok (scanPair unit behind)
            else .ok ⟨Char.ofNat unit, none, behind⟩
      else .error ⟨.invalidEscape, rest.length + 1, 1⟩

theorem scanUnit_length {text rest : List Char} {unit : Nat}
    (h : scanUnit text = .ok (unit, rest))
    : rest.length < text.length := by
  unfold scanUnit at h
  split at h
  · split at h
    · simp only [Except.ok.injEq, Prod.mk.injEq] at h
      simp only [← h.2, List.length_cons]
      omega
    · simp at h
  · split at h <;> simp at h

theorem scanPair_length (high : Nat) (text : List Char)
    : (scanPair high text).rest.length ≤ text.length := by
  unfold scanPair
  dsimp only
  split
  · split
    · simp
    · rename_i h
      have := scanUnit_length h
      split
      · simp only [List.length_cons]
        omega
      · simp
  all_goals simp

theorem scanEscape_length {text : List Char} {escape : Escape}
    (h : scanEscape text = .ok escape)
    : escape.rest.length < text.length := by
  unfold scanEscape at h
  split at h
  · simp at h
  · rename_i c rest
    have unit {unit : Nat} {behind : List Char} (hu : scanUnit rest = .ok (unit, behind))
        : behind.length < rest.length + 1 := by
      have := scanUnit_length hu
      omega
    have pair (high : Nat) {unit : Nat} {behind : List Char}
        (hu : scanUnit rest = .ok (unit, behind))
        : (scanPair high behind).rest.length < rest.length + 1 := by
      have := scanUnit_length hu
      have := scanPair_length high behind
      omega
    grind

/-- A text that was in quotes, the first doubt about it, and the text behind its end. -/
structure Quoted where
  text : List Char
  doubt : Option Fault
  rest : List Char
  deriving Repr

/-- A text behind its opening quote, up to the closing one. -/
def scanQuoted (text : List Char) : Except Fault Quoted :=
  match text with
  | [] => .error (.taken .endInString [])
  | c :: rest =>
      if c = '"' then .ok ⟨[], none, rest⟩
      else if c = '\\' then
        match _h : scanEscape rest with
        | .error fault => .error fault
        | .ok escape =>
            match scanQuoted escape.rest with
            | .error fault => .error fault
            | .ok quoted =>
                .ok ⟨escape.character :: quoted.text, escape.doubt.or quoted.doubt,
                  quoted.rest⟩
      else if c.toNat < 0x20 then .error (.taken .controlCharacter rest)
      else
        match scanQuoted rest with
        | .error fault => .error fault
        | .ok quoted => .ok { quoted with text := c :: quoted.text }
termination_by text.length
decreasing_by
  · have := scanEscape_length _h
    simp only [List.length_cons]
    omega
  · simp

/-- A string behind its opening quote. -/
def scanString (text : List Char) : Scanned Written :=
  match scanQuoted text with
  | .error fault => (broken fault, none)
  | .ok quoted =>
      let value := string (String.ofList quoted.text)
      (quoted.doubt.elim value (doubtful · value), some quoted.rest)

end Written

end SchemaDoc.Json
