import SchemaDoc.Token.Lexer

/-! How tokens are spelled, and where one starts.
Both are said without reference to how a scanner reads: a token's text follows from the slice
that spells it, and whether a token starts at a character depends on the next one at most.
-/

namespace SchemaDoc

-----------------------------------------------------------------------------------------
-- Spelling
-----------------------------------------------------------------------------------------

/-- What a string stands for: a backslash stands for the character behind it. -/
def unescape : List Char → List Char
  | '\\' :: c :: rest => c :: unescape rest
  | c :: rest => c :: unescape rest
  | [] => []

/-- The content of a string: every quote of its kind in it has a backslash in front. -/
inductive StringBody (quote : Char) : List Char → Prop
  | nil : StringBody quote []
  | plain {c rest} (notQuote : c ≠ quote) (notEscape : c ≠ '\\')
    (behind : StringBody quote rest)
    : StringBody quote (c :: rest)
  | escaped {c rest} (behind : StringBody quote rest)
    : StringBody quote ('\\' :: c :: rest)

/-- A slice spells a token of a kind with a text. A string that is never closed may end in a
backslash with nothing behind it.
-/
inductive Spells : TokenKind → List Char → List Char → Prop
  | comment {body} : Spells .comment ('/' :: '/' :: body) (Text.trim body)
  | docComment {body} : Spells .docComment ('/' :: '/' :: '/' :: body) (Text.trim body)
  | string {slice quote body closing} (isQuote : quote = '"' ∨ quote = '\x27')
    (split : slice = quote :: (body ++ closing)) (isBody : StringBody quote body)
    (closes : closing ∈ [[quote], [], ['\\']])
    : Spells .string slice (unescape body)
  | verbatim {kind slice} (isPlain : kind ∉ [.comment, .docComment, .string])
    : Spells kind slice slice

/-- Whether a token starts at the front of a text. Two characters are enough to tell. -/
def StartsToken : List Char → Prop
  | [] => False
  | c :: rest =>
      c ∈ ['\n', '"', '\x27', '_', '\x7b', '\x7d', '(', ')', '[', ']', '@', '?', ':', ',', '=', '.']
        ∨ c.isAlpha = true
        ∨ c.isDigit = true
        ∨ (c = '/' ∧ rest.head? = some '/')
        ∨ (c = '-' ∧ ∃ d, rest.head? = some d ∧ d.isDigit = true)

theorem unescape_plain {c : Char} {rest : List Char} (notEscape : c ≠ '\\')
    : unescape (c :: rest) = c :: unescape rest := by
  rw [unescape]
  exact fun _ _ isEscape => absurd isEscape notEscape

theorem notEscape_of_isQuote {quote : Char} (isQuote : quote = '"' ∨ quote = '\x27')
    : quote ≠ '\\' := by
  rcases isQuote with rfl | rfl <;> decide

/-- A scanner that reads a spelled string finds its content. -/
theorem stringBody_of_body {quote : Char} (isQuote : quote ≠ '\\') {body closing : List Char}
    (isBody : StringBody quote body) (closes : closing ∈ [[quote], [], ['\\']])
    : (Lexeme.stringBody quote (body ++ closing)).1 = unescape body := by
  induction isBody with
  | nil =>
      simp only [List.mem_cons, List.not_mem_nil, or_false] at closes
      rcases closes with rfl | rfl | rfl
      · simp [Lexeme.stringBody, unescape]
      · simp [Lexeme.stringBody, unescape]
      · simp [Lexeme.stringBody, unescape, isQuote.symm]
  | plain notQuote notEscape _ ih =>
      rw [unescape_plain notEscape, ← ih, List.cons_append, Lexeme.stringBody.eq_def]
      simp only [if_neg notQuote, if_neg notEscape]
  | escaped _ ih =>
      rw [unescape, ← ih, List.cons_append, List.cons_append, Lexeme.stringBody.eq_def]
      simp only [if_neg isQuote.symm, if_pos]

/-- What a scanner reads as a string is a spelled one. -/
theorem body_of_stringBody (quote : Char) (text : List Char)
    : ∃ body closing,
        (Lexeme.stringBody quote text).2.1 = body ++ closing
        ∧ StringBody quote body
        ∧ closing ∈ [[quote], [], ['\\']]
        ∧ (Lexeme.stringBody quote text).1 = unescape body := by
  fun_induction Lexeme.stringBody quote text with
  | case1 => exact ⟨[], [], rfl, .nil, by simp, rfl⟩
  | case2 => exact ⟨[], [quote], rfl, .nil, by simp, rfl⟩
  | case3 => exact ⟨[], ['\\'], rfl, .nil, by simp, rfl⟩
  | case4 escaped rest content source behind read _ ih =>
      obtain ⟨body, closing, split, isBody, closes, same⟩ := ih
      simp only [read] at split same
      exact ⟨'\\' :: escaped :: body, closing, by simp [split], .escaped isBody, closes,
        by simp [unescape, same]⟩
  | case5 c rest notQuote notEscape content source behind read ih =>
      obtain ⟨body, closing, split, isBody, closes, same⟩ := ih
      simp only [read] at split same
      exact ⟨c :: body, closing, by simp [split], .plain notQuote notEscape isBody, closes,
        by simp [unescape_plain notEscape, same]⟩

/-- The slice and the kind of a token determine its text. -/
theorem Spells.unique {kind : TokenKind} {slice text text' : List Char}
    (spells : Spells kind slice text) (spells' : Spells kind slice text')
    : text = text' := by
  cases spells with
  | comment =>
      cases spells' with
      | comment => rfl
      | verbatim isPlain => simp at isPlain
  | docComment =>
      cases spells' with
      | docComment => rfl
      | verbatim isPlain => simp at isPlain
  | string isQuote split isBody closes =>
      cases spells' with
      | string _ split' isBody' closes' =>
          obtain ⟨rfl, same⟩ := List.cons.inj (split.symm.trans split')
          have notEscape := notEscape_of_isQuote isQuote
          rw [← stringBody_of_body notEscape isBody closes, same,
            stringBody_of_body notEscape isBody' closes']
      | verbatim isPlain => simp at isPlain
  | verbatim isPlain =>
      cases spells' with
      | verbatim => rfl
      | _ => simp at isPlain

-----------------------------------------------------------------------------------------
-- Lexemes
-----------------------------------------------------------------------------------------

/-- The kinds of tokens whose text is not their slice, and the kind of no lexeme. -/
def notVerbatim : List TokenKind := [.comment, .docComment, .string, .endOfInput]

theorem ofWord_notMem (word : List Char) : TokenKind.ofWord word ∉ notVerbatim := by
  simp only [TokenKind.ofWord]
  generalize found : TokenKind.keywords.find? _ = entry
  cases entry with
  | none => decide
  | some entry =>
      have isKeyword := List.mem_of_find?_eq_some found
      simp only [TokenKind.keywords, List.mem_cons, List.not_mem_nil, or_false] at isKeyword
      rcases isKeyword with rfl | rfl | rfl | rfl | rfl | rfl <;> decide

theorem ofSymbol?_notMem {c : Char} {kind : TokenKind}
    (isSymbol : TokenKind.ofSymbol? c = some kind)
    : kind ∉ notVerbatim := by
  unfold TokenKind.ofSymbol? at isSymbol
  split at isSymbol <;> simp at isSymbol <;> subst isSymbol <;> decide

theorem spells_verbatim {kind : TokenKind} (isPlain : kind ∉ notVerbatim)
    (source rest : List Char)
    : Spells (Lexeme.verbatim kind source rest).kind (Lexeme.verbatim kind source rest).source
        (Lexeme.verbatim kind source rest).text
      ∧ (Lexeme.verbatim kind source rest).kind ≠ .endOfInput := by
  simp only [notVerbatim, List.mem_cons, List.not_mem_nil, or_false, not_or] at isPlain
  obtain ⟨notComment, notDoc, notString, notEnd⟩ := isPlain
  refine ⟨.verbatim ?_, notEnd⟩
  simp [Lexeme.verbatim, notComment, notDoc, notString]

/-- A lexeme is spelled by the characters it is read from, and is not the end of the input. -/
theorem spells_of_first? {text : List Char} {lexeme : Lexeme}
    (h : Lexeme.first? text = some lexeme)
    : Spells lexeme.kind lexeme.source lexeme.text ∧ lexeme.kind ≠ .endOfInput := by
  fun_cases Lexeme.first? text <;> simp_all only [Lexeme.first?, Option.some.injEq, reduceCtorEq,
    if_true, if_false] <;> subst h
  case case2 => exact spells_verbatim (by decide) _ _
  case case3 => exact ⟨.docComment, by simp [Lexeme.comment]⟩
  case case4 => exact ⟨.comment, by simp [Lexeme.comment]⟩
  case case5 => exact spells_verbatim (by decide) _ _
  case case6 => exact spells_verbatim (by decide) _ _
  case case8 quote rest _ _ _ _ _ isQuote =>
    obtain ⟨body, closing, split, isBody, closes, same⟩ := body_of_stringBody quote rest
    refine ⟨?_, by simp [Lexeme.string]⟩
    simp only [Lexeme.string, same]
    exact .string isQuote (by rw [split]) isBody closes
  case case9 => exact spells_verbatim (by decide) _ _
  case case10 => exact spells_verbatim (ofWord_notMem _) _ _
  case case11 isSymbol => exact spells_verbatim (ofSymbol?_notMem isSymbol) _ _

theorem ofSymbol?_eq_none_iff {c : Char}
    : TokenKind.ofSymbol? c = none
      ↔ c ∉ ['\x7b', '\x7d', '(', ')', '[', ']', '@', '?', ':', ',', '=', '.'] := by
  unfold TokenKind.ofSymbol?
  split <;> simp_all

/-- A token starts exactly where a lexeme is read. -/
theorem first?_isSome_iff (text : List Char)
    : (Lexeme.first? text).isSome = true ↔ StartsToken text := by
  fun_cases Lexeme.first? text
  case case1 => simp [StartsToken]
  case case2 | case5 => exact iff_of_true rfl (Or.inl (by decide))
  case case3 | case4 => exact iff_of_true rfl (by simp [StartsToken])
  case case6 isDigit => exact iff_of_true rfl (by simp [StartsToken, isDigit])
  case case7 notDigit => exact iff_of_false (by simp) (by simp [StartsToken, notDigit])
  case case8 isQuote =>
    refine iff_of_true rfl (Or.inl ?_)
    rcases isQuote with rfl | rfl <;> decide
  case case9 isDigit => exact iff_of_true rfl (by simp [StartsToken, isDigit])
  case case10 isStart =>
    refine iff_of_true rfl ?_
    simp only [Lexeme.isWordStart, Bool.or_eq_true, beq_iff_eq] at isStart
    rcases isStart with isAlpha | rfl
    · exact Or.inr (Or.inl isAlpha)
    · exact Or.inl (by decide)
  case case11 isSymbol =>
    have isMember := mt ofSymbol?_eq_none_iff.mpr (isSymbol ▸ Option.some_ne_none _)
    refine iff_of_true rfl (Or.inl ?_)
    grind
  case case12 c rest notBreak notDoc notComment notDouble notSigned notQuote notDigit notStart
      notSymbol =>
    refine iff_of_false (by simp) ?_
    have notMember := ofSymbol?_eq_none_iff.mp notSymbol
    simp only [Lexeme.isWordStart, Bool.or_eq_true, beq_iff_eq, not_or] at notStart notQuote
    rintro (isMember | isAlpha | isDigit | ⟨rfl, isSlash⟩ | ⟨rfl, d, isNext, _⟩)
    · simp only [List.mem_cons, List.not_mem_nil, or_false, not_or] at isMember notMember
      grind
    · exact notStart.1 isAlpha
    · exact notDigit isDigit
    · obtain ⟨rest, rfl⟩ := List.head?_eq_some_iff.mp isSlash
      exact notComment rest rfl rfl
    · obtain ⟨rest, rfl⟩ := List.head?_eq_some_iff.mp isNext
      exact notSigned d rest rfl rfl

end SchemaDoc
