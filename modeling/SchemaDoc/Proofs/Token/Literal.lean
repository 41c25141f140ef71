import Mathlib.Data.List.Pairwise
import SchemaDoc.Proofs.Placement

/-! Quoted strings in a text.
However a string is escaped, what is written between quotes is read as one token with the string
for its text, and no other token shares a byte with it.
-/

namespace SchemaDoc

open String (utf8Len)

/-- How a string is written between quotes: every quote and every backslash has a backslash in
front, and any other character may have one.
-/
inductive Escapes (quote : Char) : List Char → List Char → Prop
  | nil : Escapes quote [] []
  | plain {c content body} (notQuote : c ≠ quote) (notEscape : c ≠ '\\')
    (behind : Escapes quote content body)
    : Escapes quote (c :: content) (c :: body)
  | escaped {c content body} (behind : Escapes quote content body)
    : Escapes quote (c :: content) ('\\' :: c :: body)

variable {quote : Char} {content body : List Char}

/-- The content of an escaped string is read up to the closing quote, and no further. -/
theorem Escapes.stringBody_eq (escapes : Escapes quote content body) (isQuote : quote ≠ '\\')
    (after : List Char)
    : Lexeme.stringBody quote (body ++ quote :: after) = (content, body ++ [quote], after) := by
  induction escapes with
  | nil =>
      rw [List.nil_append, Lexeme.stringBody.eq_def]
      simp only [if_pos, List.nil_append]
  | plain notQuote notEscape _ ih =>
      rw [List.cons_append, Lexeme.stringBody.eq_def]
      simp only [if_neg notQuote, if_neg notEscape, ih]
      rfl
  | escaped _ ih =>
      rw [List.cons_append, List.cons_append, Lexeme.stringBody.eq_def]
      simp only [if_neg isQuote.symm, if_pos, ih]
      rfl

theorem Escapes.first?_eq (escapes : Escapes quote content body)
    (isQuote : quote = '"' ∨ quote = '\x27') (after : List Char)
    : Lexeme.first? (quote :: (body ++ [quote]) ++ after)
      = some ⟨.string, content, quote :: (body ++ [quote]), after⟩ := by
  have whole := escapes.stringBody_eq (notEscape_of_isQuote isQuote) after
  rcases isQuote with rfl | rfl <;> simp [Lexeme.first?, Lexeme.string, whole]

/-- A literal of a string in a text: the string is written between quotes, and the place where it
begins is inside no token, so that one can start there.
-/
inductive IsLiteral (text s : String) : Span → Prop
  | mk {before quote body after} (isQuote : quote = '"' ∨ quote = '\x27')
    (escapes : Escapes quote s.toList body)
    (split : text.toList = before ++ (quote :: (body ++ [quote]) ++ after))
    (outside
      : ∀ token ∈ tokenize text,
          ¬(token.span.start < utf8Len before ∧ utf8Len before < token.span.stop))
    : IsLiteral text s ⟨utf8Len before, utf8Len before + utf8Len (quote :: (body ++ [quote]))⟩

theorem not_isGap_of_isQuote (isQuote : quote = '"' ∨ quote = '\x27') (rest : List Char)
    : ¬IsGap quote rest := by
  rintro (⟨isBlank, -⟩ | notStart)
  · rcases isQuote with rfl | rfl <;> exact absurd isBlank (by decide)
  · exact notStart (.inl (by rcases isQuote with rfl | rfl <;> decide))

/-- In a place that is inside no token, a token starts unless a scan passes it over. -/
theorem exists_starts {text : String} {before after : List Char} {c : Char}
    (split : text.toList = before ++ c :: after) (notGap : ¬IsGap c after)
    (outside
      : ∀ token ∈ tokenize text,
          ¬(token.span.start < utf8Len before ∧ utf8Len before < token.span.stop))
    : ∃ token ∈ tokenize text, token.span.start = utf8Len before := by
  by_contra noToken
  refine notGap ((scans_tokenize text).isGap_of_uncovered split fun token isMember covers => ?_)
  have atStart : Position.start.offset + utf8Len before = utf8Len before := Nat.zero_add _
  rw [atStart] at covers
  have notHere : token.span.start ≠ utf8Len before := fun here => noToken ⟨token, isMember, here⟩
  exact outside token isMember ⟨Nat.lt_of_le_of_ne covers.1 notHere, covers.2⟩

/-- A token of a text that starts at a place is what can be read there. -/
theorem eq_toToken_of_mem_tokenize {text : String} {before after : List Char} {token : Token}
    {lexeme : Lexeme} (isMember : token ∈ tokenize text)
    (split : text.toList = before ++ after) (starts : token.span.start = utf8Len before)
    (read : Lexeme.first? after = some lexeme)
    : token = lexeme.toToken (Position.start.after before) := by
  have offset (front : List Char) : (Position.start.after front).offset = utf8Len front := by
    rw [Position.offset_after]
    exact Nat.zero_add _
  rcases (scans_tokenize text).reads token isMember with
    rfl | ⟨before', lexeme', split', read', rfl⟩
  · have atEnd : utf8Len text.toList = utf8Len before := (offset _).symm.trans starts
    have same := prefix_eq_of_utf8Len_eq (List.prefix_refl _) ⟨after, split.symm⟩ atEnd
    have noRest : after = [] := by simpa [same] using split
    simp [noRest, Lexeme.first?] at read
  · have sameStart : utf8Len before' = utf8Len before := (offset _).symm.trans starts
    obtain rfl := prefix_eq_of_utf8Len_eq ⟨_, split'.symm⟩ ⟨_, split.symm⟩ sameStart
    rw [List.append_cancel_left (split'.symm.trans split), read] at read'
    rw [Option.some.inj read']

/-- In a place that is inside no token, what can be read there is a token, of which nothing else in
the text has a part.
-/
theorem exists_token_of_first? {text : String} {before after : List Char} {c : Char}
    {lexeme : Lexeme} (split : text.toList = before ++ c :: after) (notGap : ¬IsGap c after)
    (outside
      : ∀ token ∈ tokenize text,
          ¬(token.span.start < utf8Len before ∧ utf8Len before < token.span.stop))
    (read : Lexeme.first? (c :: after) = some lexeme)
    : ∃ token ∈ tokenize text,
        token.kind = lexeme.kind
        ∧ token.text = String.ofList lexeme.text
        ∧ token.span = ⟨utf8Len before, utf8Len before + utf8Len lexeme.source⟩
        ∧ ∀ other ∈ tokenize text, other = token ∨ other.span.IsApart token.span := by
  obtain ⟨token, isMember, starts⟩ := exists_starts split notGap outside
  have isToken := eq_toToken_of_mem_tokenize isMember split starts read
  have stop : token.span.stop = utf8Len before + utf8Len lexeme.source := by
    rw [← starts, isToken]
    exact Position.offset_after _ _
  have apart : (tokenize text).Pairwise fun a b => a.span.IsApart b.span :=
    (scans_tokenize text).ordered.imp Or.inl
  have : Std.Symm fun a b : Token => a.span.IsApart b.span := ⟨fun _ _ => Or.symm⟩
  refine ⟨token, isMember, by rw [isToken]; rfl, by rw [isToken]; rfl,
    congrArg₂ Span.mk starts stop, fun other isOther => ?_⟩
  by_cases same : other = token
  · exact .inl same
  · exact .inr (apart.forall isOther isMember same)

/-- A literal is read as one token, of which nothing else in the text has a part. -/
theorem IsLiteral.token {text s : String} {span : Span} (isLiteral : IsLiteral text s span)
    : ∃ token ∈ tokenize text,
        token.kind = .string
        ∧ token.text = s
        ∧ token.span = span
        ∧ ∀ other ∈ tokenize text, other = token ∨ other.span.IsApart span := by
  obtain @⟨before, quote, body, after, isQuote, escapes, split, outside⟩ := isLiteral
  obtain ⟨token, isMember, isString, spelled, place, alone⟩ := exists_token_of_first? split
    (not_isGap_of_isQuote isQuote _) outside (escapes.first?_eq isQuote after)
  exact ⟨token, isMember, isString, spelled.trans String.ofList_toList, place, place ▸ alone⟩

end SchemaDoc
