import SchemaDoc.Proofs.Token.Lookahead
import SchemaDoc.Proofs.Token.Skipping

/-! Texts with a blank in place of each character that a scan skips.
A scan of such a text skips nothing and finds the same tokens on the same lines and columns. Their
offsets are carried over, since a skipped character may take more bytes than a blank.
-/

namespace SchemaDoc

open String (utf8Len)

-----------------------------------------------------------------------------------------
-- Blanks in place of characters
-----------------------------------------------------------------------------------------

/-- A text that begins at an offset, with a blank in place of each character that stands at one of
the offsets given.
-/
def blankedAt (offsets : List Nat) : Nat → List Char → List Char
  | _, [] => []
  | offset, c :: rest =>
      (if offset ∈ offsets then ' ' else c) :: blankedAt offsets (offset + c.utf8Size) rest

section BlankedAt

variable {offsets : List Nat}

theorem blankedAt_append (offset : Nat) (front back : List Char)
    : blankedAt offsets offset (front ++ back)
      = blankedAt offsets offset front ++ blankedAt offsets (offset + utf8Len front) back := by
  induction front generalizing offset with
  | nil => rfl
  | cons c front ih =>
      rw [List.cons_append, blankedAt, blankedAt, ih, List.cons_append, String.utf8Len_cons,
        Nat.add_comm (utf8Len front), ← Nat.add_assoc]

/-- A text in front of all the offsets stays as it is. -/
theorem blankedAt_of_le {offset : Nat} {text : List Char}
    (behind : ∀ o ∈ offsets, offset + utf8Len text ≤ o)
    : blankedAt offsets offset text = text := by
  induction text generalizing offset with
  | nil => rfl
  | cons c rest ih =>
      rw [String.utf8Len_cons] at behind
      have isFree : offset ∉ offsets := by
        intro isMember
        have := behind offset isMember
        have := c.utf8Size_pos
        omega
      rw [blankedAt, if_neg isFree, ih fun o isMember => by have := behind o isMember; omega]

/-- An offset in front of a text does not matter. -/
theorem blankedAt_cons_of_lt {o offset : Nat} (inFront : o < offset) (text : List Char)
    : blankedAt (o :: offsets) offset text = blankedAt offsets offset text := by
  induction text generalizing offset with
  | nil => rfl
  | cons c rest ih =>
      rw [blankedAt, blankedAt, ih (Nat.lt_add_right _ inFront)]
      simp [inFront.ne']

end BlankedAt

-----------------------------------------------------------------------------------------
-- Cleaned texts
-----------------------------------------------------------------------------------------

theorem Scan.offset_le_of_mem_skipped {position : Position} {text : List Char} {skipped : Skipped}
    (isMember : skipped ∈ (ofChars position text).skipped)
    : position.offset ≤ skipped.position.offset := by
  obtain ⟨before, -, place⟩ := (mem_skipped_iff position text skipped).mp isMember
  rw [place, Position.offset_after]
  exact Nat.le_add_right _ _

/-- A text from a place, with a blank in place of each character that a scan skips. -/
def cleanedFrom (position : Position) (text : List Char) : List Char :=
  blankedAt ((Scan.ofChars position text).skipped.map (·.position.offset)) position.offset text

/-- A text with a blank in place of each character that a scan skips. -/
def cleaned (text : String) : String := .ofList (cleanedFrom .start text.toList)

/-- What a scan has passed without skipping anything stays as it is. -/
theorem cleanedFrom_of_passed {position : Position} (front : List Char) {back : List Char}
    (passed
      : (Scan.ofChars position (front ++ back)).skipped
        = (Scan.ofChars (position.after front) back).skipped)
    : cleanedFrom position (front ++ back)
      = front ++ cleanedFrom (position.after front) back := by
  have behind : ∀ o ∈ (Scan.ofChars (position.after front) back).skipped.map (·.position.offset),
      position.offset + utf8Len front ≤ o := by
    intro o isMember
    obtain ⟨skipped, isSkipped, rfl⟩ := List.mem_map.mp isMember
    rw [← Position.offset_after]
    exact Scan.offset_le_of_mem_skipped isSkipped
  rw [cleanedFrom, passed, blankedAt_append, blankedAt_of_le behind, ← Position.offset_after]
  rfl

section CleanedFrom

variable {c : Char} {rest : List Char}

theorem cleanedFrom_of_blank (isBlank : c ≠ '\n' ∧ Text.isBlank c = true) (position : Position)
    : cleanedFrom position (c :: rest) = c :: cleanedFrom (position.next c) rest :=
  cleanedFrom_of_passed [c] (congrArg Scan.skipped (Scan.ofChars_of_blank isBlank position))

theorem cleanedFrom_of_lexeme {lexeme : Lexeme}
    (notBlank : ¬(c ≠ '\n' ∧ Text.isBlank c = true))
    (read : Lexeme.first? (c :: rest) = some lexeme) (position : Position)
    : cleanedFrom position (c :: rest)
      = lexeme.source ++ cleanedFrom (position.after lexeme.source) lexeme.rest := by
  have scanned := Scan.ofChars_of_lexeme notBlank read position
  rw [← Lexeme.source_append_rest read] at scanned ⊢
  exact cleanedFrom_of_passed lexeme.source (by rw [scanned])

theorem cleanedFrom_of_skipped (notBlank : ¬(c ≠ '\n' ∧ Text.isBlank c = true))
    (unread : Lexeme.first? (c :: rest) = none) (position : Position)
    : cleanedFrom position (c :: rest) = ' ' :: cleanedFrom (position.next c) rest := by
  have later : position.offset < position.offset + c.utf8Size :=
    Nat.lt_add_of_pos_right c.utf8Size_pos
  rw [cleanedFrom, Scan.ofChars_of_skipped notBlank unread, List.map_cons, blankedAt,
    if_pos List.mem_cons_self, blankedAt_cons_of_lt later, ← Position.offset_next]
  rfl

theorem first?_ne_none_of_break (rest : List Char) : Lexeme.first? ('\n' :: rest) ≠ none := by
  simp [Lexeme.first?]

end CleanedFrom

/-- What stops a lexeme stops it also when it is cleaned. -/
theorem stops_cleanedFrom (position : Position) (text : List Char)
    : Lexeme.Stops text (cleanedFrom position text) := by
  intro d isFirst
  fun_cases Scan.ofChars position text with
  | case1 => simp [cleanedFrom, blankedAt] at isFirst
  | case2 c rest isBlank =>
      rw [cleanedFrom_of_blank isBlank] at isFirst
      exact .inl isFirst
  | case3 c rest notBlank lexeme read =>
      rw [cleanedFrom_of_lexeme notBlank read, Lexeme.source_append_eq_cons read] at isFirst
      exact .inl isFirst
  | case4 c rest notBlank unread =>
      rw [cleanedFrom_of_skipped notBlank unread] at isFirst
      have notBreak : c ≠ '\n' := by
        rintro rfl
        exact first?_ne_none_of_break rest unread
      exact .inr (.inr (.inl ⟨(Option.some.inj isFirst).symm, c, rfl, notBreak⟩))

-----------------------------------------------------------------------------------------
-- Lines and columns
-----------------------------------------------------------------------------------------

/-- Two texts of one length, with line breaks in the same places. -/
def BreakAlike : List Char → List Char → Prop := List.Forall₂ fun c d => c = '\n' ↔ d = '\n'

theorem breakAlike_refl (text : List Char) : BreakAlike text text :=
  List.forall₂_same.mpr fun _ _ => Iff.rfl

theorem cleanedFrom_breakAlike (position : Position) (text : List Char)
    : BreakAlike text (cleanedFrom position text) := by
  fun_induction Scan.ofChars position text with
  | case1 => exact .nil
  | case2 position c rest isBlank ih =>
      rw [cleanedFrom_of_blank isBlank]
      exact .cons Iff.rfl ih
  | case3 position c rest notBlank lexeme read _ ih =>
      rw [cleanedFrom_of_lexeme notBlank read, ← Lexeme.source_append_rest read]
      exact List.rel_append (breakAlike_refl lexeme.source) ih
  | case4 position c rest notBlank unread _ ih =>
      rw [cleanedFrom_of_skipped notBlank unread]
      refine .cons ⟨?_, by simp⟩ ih
      rintro rfl
      exact absurd unread (first?_ne_none_of_break rest)

namespace Position

/-- Two places on one line and in one column. -/
structure Level (p q : Position) : Prop where
  line : p.line = q.line
  column : p.column = q.column

variable {p q : Position}

theorem Level.next (level : p.Level q) {c d : Char} (breaks : c = '\n' ↔ d = '\n')
    : (p.next c).Level (q.next d) := by
  obtain ⟨line, column⟩ := level
  unfold Position.next
  by_cases isBreak : c = '\n'
  · simp only [isBreak, breaks.mp isBreak, if_true]
    exact ⟨congrArg (· + 1) line, rfl⟩
  · simp only [isBreak, mt breaks.mpr isBreak, if_false]
    exact ⟨line, congrArg (· + 1) column⟩

theorem Level.after (level : p.Level q) {text other : List Char}
    (alike : BreakAlike text other)
    : (p.after text).Level (q.after other) := by
  induction alike generalizing p q with
  | nil => exact level
  | cons breaks _ ih => exact ih (level.next breaks)

end Position

-----------------------------------------------------------------------------------------
-- Offsets that are carried over
-----------------------------------------------------------------------------------------

/-- A range with its ends changed. -/
def Span.carry (change : Nat → Nat) (span : Span) : Span := ⟨change span.start, change span.stop⟩

/-- A token with its place in the text changed, on the same line and column. -/
def Token.mapSpan (change : Span → Span) (token : Token) : Token :=
  { token with span := change token.span }

/-- Offsets of a text from a place are carried over to another text from a place on the same line
and column: what is in front has as many characters.
-/
structure Carries (change : Nat → Nat) (p q : Position) (text other : List Char) : Prop where
  level : p.Level q
  offset : ∀ n, change (p.offset + utf8Len (text.take n)) = q.offset + utf8Len (other.take n)

namespace Carries

variable {change : Nat → Nat} {p q : Position} {text other : List Char}

theorem here (carries : Carries change p q text other) : change p.offset = q.offset :=
  carries.offset 0

theorem next {c d : Char} (carries : Carries change p q (c :: text) (d :: other))
    (breaks : c = '\n' ↔ d = '\n')
    : Carries change (p.next c) (q.next d) text other := by
  refine ⟨carries.level.next breaks, fun n => ?_⟩
  have behind := carries.offset (n + 1)
  simp only [List.take_succ_cons, String.utf8Len_cons] at behind
  rw [Position.offset_next, Position.offset_next, Nat.add_assoc, Nat.add_assoc,
    Nat.add_comm c.utf8Size, Nat.add_comm d.utf8Size, behind]

theorem after (source : List Char)
    (carries : Carries change p q (source ++ text) (source ++ other))
    : Carries change (p.after source) (q.after source) text other := by
  induction source generalizing p q with
  | nil => exact carries
  | cons c source ih => exact ih (carries.next Iff.rfl)

end Carries

/-- A lexeme makes the same token in both texts, but for its offsets. -/
theorem Lexeme.toToken_mapSpan {change : Nat → Nat} {p q : Position} {text other : List Char}
    {lexeme : Lexeme}
    (carries : Carries change p q (lexeme.source ++ text) (lexeme.source ++ other))
    : lexeme.toToken q = (lexeme.toToken p).mapSpan (Span.carry change) := by
  have stop := (carries.after lexeme.source).here
  simp only [toToken, Token.mapSpan, Span.carry, carries.here, stop, carries.level.line,
    carries.level.column]

theorem Token.ending_mapSpan {change : Nat → Nat} {p q : Position} {text other : List Char}
    (carries : Carries change p q text other)
    : Token.ending q = (Token.ending p).mapSpan (Span.carry change) := by
  simp only [ending, mapSpan, Span.carry, carries.here, carries.level.line, carries.level.column]

/-- A scan of a cleaned text skips nothing and finds the same tokens, by induction on the scan of
the text as it was.
-/
theorem Scan.ofChars_cleanedFrom {change : Nat → Nat} {p q : Position} {text : List Char}
    (carries : Carries change p q text (cleanedFrom p text))
    : ofChars q (cleanedFrom p text)
      = ⟨(ofChars p text).tokens.map (Token.mapSpan (Span.carry change)), []⟩ := by
  fun_induction ofChars p text generalizing q
  case case1 p =>
    rw [cleanedFrom, blankedAt, ofChars, Token.ending_mapSpan carries]
    rfl
  case case2 p c rest isBlank ih =>
    rw [cleanedFrom_of_blank isBlank] at carries ⊢
    rw [ofChars_of_blank isBlank, ih (carries.next Iff.rfl)]
  case case3 p c rest notBlank lexeme read scan ih =>
    have again := Lexeme.first?_of_stops read (stops_cleanedFrom (p.after lexeme.source) _)
      fun _ isNil => by rw [isNil, cleanedFrom, blankedAt]
    rw [cleanedFrom_of_lexeme notBlank read] at carries ⊢
    rw [← Lexeme.source_append_rest read] at carries
    rw [Lexeme.source_append_eq_cons read] at again ⊢
    rw [ofChars_of_lexeme notBlank again]
    simp only [ih (carries.after lexeme.source), List.map_cons, scan,
      ← Lexeme.toToken_mapSpan carries]
    rfl
  case case4 p c rest notBlank unread scan ih =>
    have isBlank : ' ' ≠ '\n' ∧ Text.isBlank ' ' = true := by decide
    have notBreak : c ≠ '\n' := by
      rintro rfl
      exact first?_ne_none_of_break rest unread
    rw [cleanedFrom_of_skipped notBlank unread] at carries ⊢
    rw [ofChars_of_blank isBlank, ih (carries.next (by simp [notBreak]))]

-----------------------------------------------------------------------------------------
-- Offsets in a cleaned text
-----------------------------------------------------------------------------------------

/-- An offset of a text, carried over to another text: as many characters are in front of it there.
An offset within a character counts as the one where the character begins.
-/
def carryOffset : List Char → List Char → Nat → Nat
  | c :: text, d :: other, offset =>
      if offset < c.utf8Size then 0
      else d.utf8Size + carryOffset text other (offset - c.utf8Size)
  | _, _, _ => 0

theorem carryOffset_take {text other : List Char} (alike : BreakAlike text other) (n : Nat)
    : carryOffset text other (utf8Len (text.take n)) = utf8Len (other.take n) := by
  induction alike generalizing n with
  | nil => simp [carryOffset]
  | @cons c d text other _ _ ih =>
      cases n with
      | zero => simp [carryOffset, c.utf8Size_pos]
      | succ n => simp [carryOffset, ih, Nat.add_comm]

theorem carryOffset_mono (text other : List Char) : Monotone (carryOffset text other) := by
  intro m n le
  fun_induction carryOffset text other m generalizing n with
  | case1 => exact Nat.zero_le _
  | case2 c text d other m notBefore ih =>
      have notBefore' : ¬n < c.utf8Size := by omega
      rw [carryOffset, if_neg notBefore']
      exact Nat.add_le_add_left (ih (Nat.sub_le_sub_right le _)) _
  | case3 => exact Nat.zero_le _

/-- A range of a text as the range of the cleaned text with the same characters. -/
def Span.inCleaned (text : String) : Span → Span :=
  Span.carry (carryOffset text.toList (cleaned text).toList)

theorem toList_cleaned (text : String)
    : (cleaned text).toList = cleanedFrom .start text.toList :=
  String.toList_ofList

theorem carries_cleaned (text : String)
    : Carries (carryOffset text.toList (cleaned text).toList) .start .start text.toList
        (cleanedFrom .start text.toList) := by
  refine ⟨⟨rfl, rfl⟩, fun n => ?_⟩
  have atStart : Position.start.offset = 0 := rfl
  rw [atStart, Nat.zero_add, Nat.zero_add, toList_cleaned]
  exact carryOffset_take (cleanedFrom_breakAlike .start text.toList) n

/-- A scan of a cleaned text skips nothing and finds the tokens of the text as it was. -/
theorem scan_cleaned (text : String)
    : Scan.ofText (cleaned text)
      = ⟨(tokenize text).map (Token.mapSpan (Span.inCleaned text)), []⟩ := by
  rw [Scan.ofText, toList_cleaned]
  exact Scan.ofChars_cleanedFrom (carries_cleaned text)

end SchemaDoc
