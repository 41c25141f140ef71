import SchemaDoc.Proofs.Schema.Spans
import SchemaDoc.Proofs.Token.Lookahead
import SchemaDoc.Proofs.Token.Scanning

/-! Scans of two texts with a line break between them.
No token but an unclosed string reaches over a line break or depends on what is behind one. So a
scan begins anew behind the break, at another place.
-/

namespace SchemaDoc

-----------------------------------------------------------------------------------------
-- Lexemes in front of a line break
-----------------------------------------------------------------------------------------

namespace Lexeme

/-- A lexeme with more text behind it. -/
def followedBy (lexeme : Lexeme) (more : List Char) : Lexeme :=
  { lexeme with rest := lexeme.rest ++ more }

/-- A line break behind a text changes nothing of the token at its front, except for a string that
is never closed.
-/
theorem first?_append {text : List Char} {lexeme : Lexeme}
    (read : first? text = some lexeme) (closed : lexeme.kind = .string → lexeme.rest ≠ [])
    (more : List Char)
    : first? (text ++ '\n' :: more) = some (lexeme.followedBy ('\n' :: more)) := by
  have stops : Stops lexeme.rest (lexeme.rest ++ '\n' :: more) := by
    intro d isFirst
    cases behind : lexeme.rest with
    | nil =>
        rw [behind] at isFirst
        exact .inr (.inl (Option.some.inj isFirst).symm)
    | cons =>
        rw [behind] at isFirst
        exact .inl isFirst
  rw [← source_append_rest read, List.append_assoc]
  exact first?_of_stops read stops fun isString isNil => absurd isNil (closed isString)

theorem first?_append_none {c : Char} {rest : List Char} (unread : first? (c :: rest) = none)
    (more : List Char)
    : first? (c :: (rest ++ '\n' :: more)) = none := by
  rw [← Option.not_isSome_iff_eq_none, first?_isSome_iff] at unread ⊢
  refine mt (fun starts => ?_) unread
  cases rest with
  | cons => exact starts
  | nil => simpa [StartsToken] using starts

end Lexeme

-----------------------------------------------------------------------------------------
-- Scans that go on behind a line break
-----------------------------------------------------------------------------------------
namespace Scan

/-- Behind a text whose last token is no string, a line break is read, and the scan begins anew
there.
-/
theorem tokens_append (position : Position) (text more : List Char) {front : List Token}
    (split : (ofChars position text).tokens = front ++ [.ending (position.after text)])
    (closed : ∀ last ∈ front.getLast?, last.kind ≠ .string)
    : (ofChars position (text ++ '\n' :: more)).tokens
      = front ++ (Lexeme.verbatim .newline ['\n'] more).toToken (position.after text)
        :: (ofChars ((position.after text).next '\n') more).tokens := by
  fun_induction ofChars position text generalizing front
  case case1 position =>
    obtain rfl : front = [] := List.append_left_eq_self.mp split.symm
    exact congrArg tokens (ofChars_of_lexeme (by simp) rfl position)
  case case2 position c rest isBlank ih =>
    rw [List.cons_append, ofChars_of_blank isBlank, ih split closed]
    rfl
  case case3 position c rest notBlank lexeme read scan ih =>
    have place : position.after (c :: rest) = (position.after lexeme.source).after lexeme.rest := by
      rw [← Position.after_append, Lexeme.source_append_rest read]
    rw [place] at split ⊢
    cases front with
    | nil =>
        obtain ⟨-, isEmpty⟩ := List.cons.inj split
        obtain ⟨front, same, -⟩ := (scans_ofChars _ lexeme.rest).ending_eq
        exact absurd (same.symm.trans isEmpty) (by simp)
    | cons token front =>
        obtain ⟨rfl, behind⟩ := List.cons.inj split
        have closedRead : lexeme.kind = .string → lexeme.rest ≠ [] := by
          intro isString isNil
          simp only [scan, isNil, ofChars] at behind
          obtain rfl : front = [] := List.append_left_eq_self.mp behind.symm
          exact closed _ rfl isString
        have closedBehind : ∀ last ∈ front.getLast?, last.kind ≠ .string := by
          intro last isLast
          refine closed last ?_
          rw [List.getLast?_cons, Option.mem_def.mp isLast]
          rfl
        have readMore := Lexeme.first?_append read closedRead more
        have readBehind := ih behind closedBehind
        rw [List.cons_append] at readMore ⊢
        rw [ofChars_of_lexeme notBlank readMore]
        exact congrArg _ readBehind
  case case4 position c rest notBlank unread scan ih =>
    rw [List.cons_append,
      ofChars_of_skipped notBlank (Lexeme.first?_append_none unread more), ih split closed]
    rfl

end Scan

-----------------------------------------------------------------------------------------
-- Scans that begin at another place
-----------------------------------------------------------------------------------------

/-- A place in a text that has more text in front of it. -/
def Position.shift (bytes : Nat) (lines : UInt32) (position : Position) : Position :=
  ⟨position.offset + bytes, position.line + lines, position.column⟩

/-- A token of a text that has more text in front of it. -/
def Token.shift (bytes : Nat) (lines : UInt32) (token : Token) : Token :=
  { token with
    line := token.line + lines
    span := token.span.shift bytes }

namespace Position

variable (bytes : Nat) (lines : UInt32) (position : Position)

theorem next_shift (c : Char)
    : (position.shift bytes lines).next c = (position.next c).shift bytes lines := by
  unfold next
  split <;> simp [shift, Nat.add_right_comm, UInt32.add_assoc, UInt32.add_comm lines]

theorem after_shift (text : List Char)
    : (position.shift bytes lines).after text = (position.after text).shift bytes lines := by
  induction text generalizing position with
  | nil => rfl
  | cons c rest ih => exact (congrArg (after · rest) (next_shift ..)).trans (ih _)

/-- Behind a text and a line break, the scan is where a text begins, but for what is in front. -/
theorem next_after_start (text : String)
    : (start.after text.toList).next '\n'
      = start.shift (text.utf8ByteSize + 1) (start.after text.toList).line := by
  have size : text.utf8ByteSize = (start.after text.toList).offset := by
    rw [offset_after, ← String.utf8ByteSize_ofList, String.ofList_toList]
    exact (Nat.zero_add _).symm
  have oneByte : '\n'.utf8Size = 1 := by decide
  rw [size]
  simp [next, shift, start, oneByte, Nat.add_comm, UInt32.add_comm]

end Position

theorem Lexeme.toToken_shift (bytes : Nat) (lines : UInt32) (lexeme : Lexeme)
    (position : Position)
    : lexeme.toToken (position.shift bytes lines)
      = (lexeme.toToken position).shift bytes lines := by
  rw [toToken, Position.after_shift]
  rfl

/-- The place where a scan begins shows in the places of the tokens only. -/
theorem Scan.tokens_shift (bytes : Nat) (lines : UInt32) (position : Position) (text : List Char)
    : (ofChars (position.shift bytes lines) text).tokens
      = (ofChars position text).tokens.map (Token.shift bytes lines) := by
  fun_induction ofChars position text
  case case1 =>
    rw [ofChars]
    rfl
  case case2 position c rest isBlank ih =>
    rw [ofChars_of_blank isBlank, Position.next_shift, ih]
  case case3 position c rest notBlank lexeme read scan ih =>
    rw [ofChars_of_lexeme notBlank read, Position.after_shift, ih, Lexeme.toToken_shift]
    rfl
  case case4 position c rest notBlank unread scan ih =>
    rw [ofChars_of_skipped notBlank unread, Position.next_shift, ih]

/-- The tokens of two texts with a line break between them, if the first text does not end in a
string.
-/
theorem tokenize_append_newline {a : String} {front : List Token}
    (split : tokenize a = front ++ [.ending (.after .start a.toList)])
    (closed : ∀ last ∈ front.getLast?, last.kind ≠ .string) (b : String)
    : ∃ newline lines,
        newline.kind = .newline
        ∧ tokenize (a ++ "\n" ++ b)
          = front ++ newline :: (tokenize b).map (Token.shift (a.utf8ByteSize + 1) lines) := by
  have text : (a ++ "\n" ++ b).toList = a.toList ++ '\n' :: b.toList := by simp
  have behind : (Scan.ofChars .start b.toList).tokens = tokenize b := rfl
  have joined := Scan.tokens_append .start a.toList b.toList split closed
  rw [Position.next_after_start, Scan.tokens_shift, behind, ← text] at joined
  exact ⟨_, _, rfl, joined⟩

end SchemaDoc
