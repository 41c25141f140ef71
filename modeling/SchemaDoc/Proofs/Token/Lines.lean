import Mathlib.Data.List.Induction
import SchemaDoc.Proofs.Token.Scanning

/-! Lines and columns as the text in front of a place counts them, and what stands between the
beginnings of two tokens. Counts have no bound, but places keep them in 32 bits; they agree as far
as those go.
-/

namespace SchemaDoc

open String (utf8Len)

-----------------------------------------------------------------------------------------
-- Counts
-----------------------------------------------------------------------------------------

/-- A line and a column, both counted from one. -/
structure Counts where
  line : Nat
  column : Nat
  deriving DecidableEq, Repr

namespace Counts

/-- What is counted behind a text: its line breaks, and what follows the last of them. -/
def behind (text : List Char) : Counts :=
  { line := text.count '\n' + 1
    column := (text.reverse.takeWhile (· ≠ '\n')).length + 1 }

/-- The order of reading: an earlier line, or an earlier column of one line. -/
def Precedes (a b : Counts) : Prop := a.line < b.line ∨ (a.line = b.line ∧ a.column < b.column)

/-- Behind more of a text, more is counted: a line if one ends there, and else columns. -/
theorem precedes_append (front : List Char) {between : List Char} (notEmpty : between ≠ [])
    : (behind front).Precedes (behind (front ++ between)) := by
  by_cases breaks : '\n' ∈ between
  · have isCounted := List.count_pos_iff.mpr breaks
    refine Or.inl ?_
    simp only [behind, List.count_append]
    omega
  · have sameLine := List.count_eq_zero.mpr breaks
    have isLonger := List.length_pos_iff.mpr notEmpty
    refine Or.inr ⟨by simp only [behind, List.count_append, sameLine, Nat.add_zero], ?_⟩
    have noBreak : ∀ c ∈ between.reverse, decide (c ≠ '\n') = true := by
      intro c isMember
      refine decide_eq_true ?_
      rintro rfl
      exact breaks (List.mem_reverse.mp isMember)
    simp only [behind, List.reverse_append]
    rw [List.takeWhile_append_of_pos noBreak, List.length_append, List.length_reverse]
    omega

/-- Counts that counters of 32 bits can hold. -/
structure Fit (counts : Counts) : Prop where
  line : counts.line < UInt32.size
  column : counts.column < UInt32.size

/-- No count overflows anywhere in a text. -/
def FitIn (text : String) : Prop :=
  ∀ before after, text.toList = before ++ after → (behind before).Fit

/-- A text has no more lines than characters, nor has any of its lines. -/
theorem fitIn_of_length_lt {text : String} (isShort : text.length + 1 < UInt32.size)
    : FitIn text := by
  intro before after split
  have inText : before.length ≤ text.length := by
    rw [← String.length_toList, split, List.length_append]
    exact Nat.le_add_right _ _
  have breaks : before.count '\n' ≤ before.length := List.count_le_length
  have onLine := (List.takeWhile_prefix (l := before.reverse) (· ≠ '\n')).length_le
  rw [List.length_reverse] at onLine
  constructor <;> simp only [behind] <;> omega

end Counts

-----------------------------------------------------------------------------------------
-- Places
-----------------------------------------------------------------------------------------

namespace Position

/-- The place behind a text: its size, and what is counted behind it, in 32 bits. -/
def behind (text : List Char) : Position :=
  { offset := utf8Len text
    line := .ofNat (Counts.behind text).line
    column := .ofNat (Counts.behind text).column }

/-- Going along a text leads to the place behind it, by induction from the end of the text. -/
theorem after_start (text : List Char) : start.after text = behind text := by
  induction text using List.reverseRecOn with
  | nil => rfl
  | append_singleton text c ih =>
      rw [after_append, ih]
      change (behind text).next c = behind (text ++ [c])
      unfold next behind Counts.behind
      split
      next isBreak => simp [isBreak, String.utf8Len_append]
      next notBreak => simp [notBreak, String.utf8Len_append]

/-- The line and the column that a place says it has. -/
def counts (position : Position) : Counts := ⟨position.line.toNat, position.column.toNat⟩

/-- As far as 32 bits go, places have the line and the column that are counted. -/
theorem counts_behind {text : List Char} (fit : (Counts.behind text).Fit)
    : (behind text).counts = .behind text := by
  rw [counts, behind, UInt32.toNat_ofNat_of_lt' fit.line, UInt32.toNat_ofNat_of_lt' fit.column]

end Position

-----------------------------------------------------------------------------------------
-- What stands between tokens
-----------------------------------------------------------------------------------------

theorem ne_docComment_of_notMem {kind : TokenKind} (isPlain : kind ∉ notVerbatim)
    : kind ≠ .docComment := by
  rintro rfl
  exact isPlain (by decide)

/-- Behind a comment its line ends. -/
theorem Lexeme.rest_of_docComment {text : List Char} {lexeme : Lexeme}
    (read : first? text = some lexeme) (isComment : lexeme.kind = .docComment)
    : lexeme.rest = [] ∨ ∃ rest, lexeme.rest = '\n' :: rest := by
  fun_cases first? text <;> simp_all only [first?, Option.some.injEq, reduceCtorEq, if_true,
    if_false] <;> subst read
  case case3 rest =>
    change rest.dropWhile (· ≠ '\n') = [] ∨ ∃ more, rest.dropWhile (· ≠ '\n') = '\n' :: more
    cases found : rest.dropWhile (· ≠ '\n') with
    | nil => exact Or.inl rfl
    | cons c more =>
        have stops := List.head?_dropWhile_not (· ≠ '\n') rest
        rw [found] at stops
        have isBreak : c = '\n' := by simpa using stops
        exact Or.inr ⟨more, by rw [isBreak]⟩
  case case10 => exact absurd isComment (ne_docComment_of_notMem (ofWord_notMem _))
  case case11 isSymbol =>
    exact absurd isComment (ne_docComment_of_notMem (ofSymbol?_notMem isSymbol))
  all_goals simp [verbatim, comment, number, string] at isComment

/-- No comment begins at the end of a line. -/
theorem Lexeme.kind_of_break {rest : List Char} {lexeme : Lexeme}
    (read : first? ('\n' :: rest) = some lexeme)
    : lexeme.kind ≠ .docComment := by
  obtain rfl := Option.some.inj read
  simp [verbatim]

/-- Where a token begins. -/
def Token.position (token : Token) : Position := ⟨token.span.start, token.line, token.column⟩

/-- Two tokens begin in a text that is read from a place, the second behind the first: what is in
front of the first and what is between them. A line ends there if both are comments.
-/
structure Apart (position : Position) (text before between : List Char) (a b : Token) : Prop where
  split : ∃ after, text = before ++ (between ++ after)
  first : a.position = position.after before
  second : b.position = position.after (before ++ between)
  notEmpty : between ≠ []
  breaks : a.kind = .docComment → b.kind = .docComment → '\n' ∈ between

/-- In a whole text, the two tokens begin where what is in front of them is counted. -/
theorem Apart.positions {text before between : List Char} {a b : Token}
    (apart : Apart .start text before between a b)
    : a.position = .behind before ∧ b.position = .behind (before ++ between) :=
  ⟨apart.first.trans (Position.after_start _), apart.second.trans (Position.after_start _)⟩

namespace Scans

variable {position : Position} {text : List Char} {tokens : List Token}

/-- Every token of a scan begins behind some of the text. -/
theorem position_eq_after (scans : Scans position text tokens)
    : ∀ token ∈ tokens,
        ∃ before after, text = before ++ after ∧ token.position = position.after before := by
  intro token isMember
  rcases scans.reads token isMember with rfl | ⟨before, lexeme, split, -, rfl⟩
  · exact ⟨text, [], (List.append_nil text).symm, rfl⟩
  · exact ⟨before, _, split, rfl⟩

/-- Every token of a scan behind a lexeme begins behind some of the text there, and the line of a
comment ends before another one begins.
-/
theorem position_behind {lexeme : Lexeme} (read : Lexeme.first? text = some lexeme)
    (behind : Scans position lexeme.rest tokens)
    : ∀ token ∈ tokens,
        ∃ before after,
          lexeme.rest = before ++ after
          ∧ token.position = position.after before
          ∧ (lexeme.kind = .docComment → token.kind = .docComment → '\n' ∈ before) := by
  intro token isMember
  rcases behind.reads token isMember with rfl | ⟨before, lexeme', split, read', rfl⟩
  · exact ⟨lexeme.rest, [], (List.append_nil _).symm, rfl, fun _ isComment =>
      absurd isComment (by simp [Token.ending])⟩
  · refine ⟨before, _, split, rfl, fun isComment isComment' => ?_⟩
    rcases Lexeme.rest_of_docComment read isComment with ended | ⟨rest, broken⟩
    · rw [split] at ended
      rw [(List.append_eq_nil_iff.mp ended).2] at read'
      exact absurd read' (by simp [Lexeme.first?])
    · rw [split] at broken
      cases before with
      | nil =>
          rw [List.nil_append] at broken
          rw [broken] at read'
          exact absurd isComment' (Lexeme.kind_of_break read')
      | cons c before =>
          rw [(List.cons.inj broken).1]
          exact List.mem_cons_self

/-- The tokens of a scan begin one behind the other. -/
theorem apart (scans : Scans position text tokens)
    : tokens.Pairwise fun a b => ∃ before between, Apart position text before between a b := by
  refine scans.pairwise fun before lexeme _ split read behind token isMember => ?_
  obtain ⟨more, after, rest, place, breaks⟩ := behind.position_behind read token isMember
  exact ⟨before, lexeme.source ++ more,
    { split := ⟨after, by rw [split, rest, List.append_assoc]⟩
      first := rfl
      second := by rw [place, Position.after_append, Position.after_append]
      notEmpty := List.append_ne_nil_of_left_ne_nil (Lexeme.source_ne_nil read) more
      breaks := fun isComment isComment' =>
        List.mem_append_right _ (breaks isComment isComment') }⟩

end Scans

end SchemaDoc
