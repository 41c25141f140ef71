import SchemaDoc.Proofs.Token.Scanning
import SchemaDoc.Proofs.Token.Word

/-! Texts with another word in the place of one that names something.
No token depends on which word stands behind it, and a word ends no line. So a scan goes on as it
did, and only columns and offsets change behind the word.
-/

namespace SchemaDoc

-----------------------------------------------------------------------------------------
-- Columns and offsets
-----------------------------------------------------------------------------------------

/-- A token without its column and its range, but on its line. -/
def Token.onLine (token : Token) : Token := { token with column := 0, span := .none }

/-- What a scan finds, but for columns and offsets: tokens and skipped characters. -/
def Scan.outline (scan : Scan) : List Token × List Char :=
  (scan.tokens.map Token.onLine, scan.skipped.map Skipped.character)

theorem Position.line_next {p q : Position} (line : q.line = p.line) (c : Char)
    : (q.next c).line = (p.next c).line := by
  unfold next
  split
  · exact congrArg (· + 1) line
  · exact line

theorem Position.line_after {p q : Position} (line : q.line = p.line) (text : List Char)
    : (q.after text).line = (p.after text).line := by
  induction text generalizing p q with
  | nil => exact line
  | cons c rest ih => exact ih (line_next line c)

/-- A text without a line break leads on in the same line. -/
theorem Position.line_after_of_noBreak {text : List Char} (noBreak : '\n' ∉ text)
    (position : Position)
    : (position.after text).line = position.line := by
  induction text generalizing position with
  | nil => rfl
  | cons c rest ih =>
      obtain ⟨isOther, noBreak⟩ := List.ne_and_not_mem_of_not_mem_cons noBreak
      rw [after, List.foldl_cons, ← after, ih noBreak, next, if_neg isOther.symm]

theorem Lexeme.onLine_toToken {p q : Position} (line : q.line = p.line) (lexeme : Lexeme)
    : (lexeme.toToken q).onLine = (lexeme.toToken p).onLine := by
  simp only [toToken, Token.onLine, line]

namespace Scan

section Steps

variable {c : Char} {rest : List Char} {lexeme : Lexeme}

theorem outline_of_blank (isBlank : c ≠ '\n' ∧ Text.isBlank c = true) (position : Position)
    : (ofChars position (c :: rest)).outline = (ofChars (position.next c) rest).outline := by
  rw [ofChars_of_blank isBlank]

theorem outline_of_lexeme (notBlank : ¬(c ≠ '\n' ∧ Text.isBlank c = true))
    (read : Lexeme.first? (c :: rest) = some lexeme) (position : Position)
    : (ofChars position (c :: rest)).outline
      = (ofChars (position.after lexeme.source) lexeme.rest).outline.map
          ((lexeme.toToken position).onLine :: ·) id := by
  rw [ofChars_of_lexeme notBlank read]
  rfl

theorem outline_of_skipped (notBlank : ¬(c ≠ '\n' ∧ Text.isBlank c = true))
    (unread : Lexeme.first? (c :: rest) = none) (position : Position)
    : (ofChars position (c :: rest)).outline
      = (ofChars (position.next c) rest).outline.map id (c :: ·) := by
  rw [ofChars_of_skipped notBlank unread]
  rfl

end Steps

/-- Of the place where a scan begins only the line shows in what it finds. -/
theorem outline_of_line {p q : Position} (line : q.line = p.line) (text : List Char)
    : (ofChars q text).outline = (ofChars p text).outline := by
  fun_induction ofChars p text generalizing q
  case case1 p =>
    simp only [ofChars, outline, Token.ending, Token.onLine, List.map_cons, List.map_nil, line]
  case case2 p c rest isBlank ih =>
    rw [outline_of_blank isBlank, ih (Position.line_next line c)]
  case case3 p c rest notBlank lexeme read scan ih =>
    rw [outline_of_lexeme notBlank read, Lexeme.onLine_toToken line,
      ih (Position.line_after line lexeme.source)]
    rfl
  case case4 p c rest notBlank unread scan ih =>
    rw [outline_of_skipped notBlank unread, ih (Position.line_next line c)]
    rfl

end Scan

-----------------------------------------------------------------------------------------
-- Words behind other tokens
-----------------------------------------------------------------------------------------

theorem not_isBlank_of_isWordStart {c : Char} (isStart : Lexeme.isWordStart c = true)
    : Text.isBlank c = false := by
  rw [Lexeme.isWordStart, Bool.or_eq_true, beq_iff_eq] at isStart
  rcases isStart with isAlpha | rfl
  · have bounds := Lexeme.toNat_of_isAlpha isAlpha
    exact Text.not_isBlank_of_isGraphic (by omega) (by omega)
  · decide

section Words

variable {word other : List Char} (isOther : IsWord other) (before after : List Char)

include isOther

/-- Any word stops a token that another word stops. -/
theorem stops_of_isWord (isWord : IsWord word)
    : Lexeme.Stops (before ++ (word ++ after)) (before ++ (other ++ after)) := by
  intro d isFirst
  cases before with
  | cons c before => exact .inl isFirst
  | nil =>
      obtain ⟨c, rest, rfl, isStart⟩ := isWord.exists_start
      obtain ⟨e, rest', rfl, isStart'⟩ := isOther.exists_start
      obtain rfl : e = d := Option.some.inj isFirst
      exact .inr (.inr (.inr ⟨isStart', c, rfl, isStart⟩))

/-- A character that begins no token in front of a word begins none in front of any other. -/
theorem first?_eq_none_of_isWord {c : Char}
    (unread : Lexeme.first? (c :: (before ++ (word ++ after))) = none)
    : Lexeme.first? (c :: (before ++ (other ++ after))) = none := by
  rw [← Option.not_isSome_iff_eq_none, first?_isSome_iff] at unread ⊢
  refine mt (fun starts => ?_) unread
  cases before with
  | cons => exact starts
  | nil =>
      obtain ⟨d, rest, rfl, isStart⟩ := isOther.exists_start
      have notDigit := (Bool.or_eq_false_iff.mp (Lexeme.not_isNumberPart_of_isWordStart isStart)).1
      have notSlash : d ≠ '/' := by
        rintro rfl
        exact absurd isStart (by decide)
      rcases starts with isMember | isAlpha | isDigit | ⟨-, isSlash⟩ | ⟨-, e, isNext, isDigit⟩
      · exact .inl isMember
      · exact .inr (.inl isAlpha)
      · exact .inr (.inr (.inl isDigit))
      · exact absurd (Option.some.inj isSlash) notSlash
      · obtain rfl : d = e := Option.some.inj isNext
        simp [notDigit] at isDigit

end Words

-----------------------------------------------------------------------------------------
-- Scans of reworded texts
-----------------------------------------------------------------------------------------

/-- A token with another word for its text. -/
def Token.reword (word : List Char) (token : Token) : Token :=
  { token with
    kind := .ofWord word
    text := String.ofList word }

/-- With another word at its front, a text is scanned as that word and what followed the first. -/
theorem Scan.outline_of_word {word other after : List Char} (isWord : IsWord word)
    (isOther : IsWord other) (ends : ∀ d ∈ after.head?, Lexeme.isWordPart d = false)
    (position : Position)
    : (ofChars position (other ++ after)).outline
      = (ofChars (position.after word) after).outline.map
          (((Lexeme.verbatim (.ofWord other) other after).toToken position).onLine :: ·) id := by
  have sameLine : (position.after other).line = (position.after word).line := by
    rw [Position.line_after_of_noBreak (isOther.not_mem (by decide)),
      Position.line_after_of_noBreak (isWord.not_mem (by decide))]
  have read := isOther.first?_eq ends
  obtain ⟨d, more, rfl, isStart⟩ := isOther.exists_start
  have notBlank : ¬(d ≠ '\n' ∧ Text.isBlank d = true) := by
    simp [not_isBlank_of_isWordStart isStart]
  rw [← outline_of_line sameLine]
  exact outline_of_lexeme notBlank read position

/-- A token that can name things is a word of the text. With any other word in its place, the scan
finds that word and is the same but for columns and offsets, by induction on the scan in front.
-/
theorem Scan.exists_word (position : Position) (text : List Char) {front back : List Token}
    {token : Token} (split : (ofChars position text).tokens = front ++ token :: back)
    (canName : token.isWord = true)
    : ∃ before word after,
        text = before ++ (word ++ after)
        ∧ IsWord word
        ∧ token.reword word = token
        ∧ ∀ other,
            IsWord other
            → (ofChars position (before ++ (other ++ after))).outline
              = ((front ++ token.reword other :: back).map Token.onLine,
                  (ofChars position text).skipped.map Skipped.character) := by
  fun_induction ofChars position text generalizing front
  case case1 position =>
    have isMember : token ∈ [Token.ending position] := by
      rw [show [Token.ending position] = front ++ token :: back from split]
      simp
    have isEnding := List.mem_singleton.mp isMember
    simp [isEnding, Token.ending, Token.isWord, TokenKind.isWord] at canName
  case case2 position c rest isBlank ih =>
    obtain ⟨before, word, after, rfl, isWord, isText, reworded⟩ := ih split
    refine ⟨c :: before, word, after, rfl, isWord, isText, fun other isOther => ?_⟩
    rw [List.cons_append, outline_of_blank isBlank, reworded other isOther]
  case case3 position c rest notBlank lexeme read scan ih =>
    cases front with
    | nil =>
        obtain ⟨rfl, rfl⟩ := List.cons.inj split
        obtain ⟨word, isWord, isLexeme, ends⟩ := Lexeme.exists_isWord_of_first? read canName
        generalize lexeme.rest = after at isLexeme ends
        subst isLexeme
        refine ⟨[], word, after, (Lexeme.source_append_rest read).symm, isWord, rfl,
          fun other isOther => ?_⟩
        rw [List.nil_append, outline_of_word isWord isOther ends]
        rfl
    | cons first front =>
        obtain ⟨rfl, behind⟩ := List.cons.inj split
        obtain ⟨before, word, after, isRest, isWord, isText, reworded⟩ := ih behind
        refine ⟨lexeme.source ++ before, word, after, ?_, isWord, isText, fun other isOther => ?_⟩
        · rw [List.append_assoc, ← isRest, Lexeme.source_append_rest read]
        · have stops : Lexeme.Stops lexeme.rest (before ++ (other ++ after)) :=
            isRest ▸ stops_of_isWord isOther before after isWord
          have read' := Lexeme.first?_of_stops read stops fun _ isNil => by
            obtain ⟨d, more, rfl, -⟩ := isWord.exists_start
            simp [isNil] at isRest
          rw [Lexeme.source_append_eq_cons read] at read'
          rw [List.append_assoc, Lexeme.source_append_eq_cons read,
            outline_of_lexeme notBlank read', reworded other isOther]
          rfl
  case case4 position c rest notBlank unread scan ih =>
    obtain ⟨before, word, after, rfl, isWord, isText, reworded⟩ := ih split
    refine ⟨c :: before, word, after, rfl, isWord, isText, fun other isOther => ?_⟩
    have unread' := first?_eq_none_of_isWord isOther before after unread
    rw [List.cons_append, outline_of_skipped notBlank unread', reworded other isOther]
    rfl

end SchemaDoc
