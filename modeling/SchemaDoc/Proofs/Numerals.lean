import SchemaDoc.Proofs.Binary64.Numeral
import SchemaDoc.Proofs.CorrectPrefix
import SchemaDoc.Proofs.Grammar.Founded
import SchemaDoc.Proofs.StrictReading
import SchemaDoc.Proofs.Token.Word

/-! The numbers of a text can always be read.
What a scan takes for a number is a numeral, so the reader finds a number at the front of it, and
no text is refused for a number.
-/

namespace SchemaDoc

open Binary64 (IsNumeral ReadsUpTo beforeSecondDot)

theorem Lexeme.isNumeral_number {sign : List Char} (isSign : sign = [] ∨ sign = ['-']) {c : Char}
    (isDigit : c.isDigit = true) (rest : List Char)
    : IsNumeral (number sign (c :: rest)).text := by
  have isPart : isNumberPart c = true := by simp [isNumberPart, isDigit]
  rw [number, verbatim, List.takeWhile_cons_of_pos isPart]
  refine .mk isSign isDigit fun d isMember => ?_
  simpa [isNumberPart] using List.mem_takeWhile_imp isMember

/-- A lexeme that is a number is a numeral, by cases on how lexemes are read. -/
theorem Lexeme.isNumeral_of_first? {text : List Char} {lexeme : Lexeme}
    (read : first? text = some lexeme) (isNumber : lexeme.kind = .number)
    : IsNumeral lexeme.text := by
  revert read isNumber
  fun_cases first? text <;> rintro ⟨⟩
  case case2 | case3 | case4 | case5 | case8 => simp [verbatim, comment, string]
  case case6 d rest isDigit => exact fun _ => isNumeral_number (.inr rfl) isDigit rest
  case case9 c rest _ _ _ _ _ _ isDigit => exact fun _ => isNumeral_number (.inl rfl) isDigit rest
  case case10 c rest _ _ _ _ _ _ _ _ =>
    intro isNumber
    have isWord : TokenKind.ofWord _ = .number := isNumber
    rcases TokenKind.ofWord_cases (List.takeWhile isWordPart (c :: rest)) with
      ⟨-, same⟩ | ⟨-, same⟩
    · exact absurd (same.symm.trans isWord) (by decide)
    · rw [isWord] at same
      exact absurd same (by decide)
  case case11 isSymbol =>
    rintro rfl
    unfold TokenKind.ofSymbol? at isSymbol
    split at isSymbol <;> simp at isSymbol

/-- The text of a number token is a numeral. -/
theorem isNumeral_of_mem_tokenize {text : String} {token : Token}
    (isMember : token ∈ tokenize text) (isNumber : token.kind = .number)
    : IsNumeral token.text.toList := by
  rcases (scans_tokenize text).reads token isMember with rfl | ⟨_, lexeme, _, read, rfl⟩
  · simp [Token.ending] at isNumber
  · rw [Lexeme.toToken, String.toList_ofList]
    exact Lexeme.isNumeral_of_first? read isNumber

/-- A number that a text is refused for is one of its tokens, and cannot be read. -/
theorem Schema.unreadable_of_malformed {strict : Bool} {text : String} {error : SyntaxError}
    (failed : ofText strict text = .error (.malformed error)) {token : Token}
    (isNumber : error.fault = .unreadableNumber token)
    : token ∈ tokenize text
      ∧ token.kind = .number
      ∧ Binary64.readLongest? token.text.toList = none := by
  rcases Schema.ofText_error_cases failed with ⟨_, ⟨⟩, failed⟩ | ⟨_, ⟨⟩, -⟩
  simp only [ofTokens] at failed
  split at failed
  next => simp at failed
  next fault faulty =>
    obtain rfl := Except.error.inj failed
    obtain rfl : fault = .unreadableNumber token := isNumber
    have isRead := Production.mem_of_declarations_eq_error faulty token rfl
    have isToken := ((List.takeWhile_sublist _).trans List.filter_sublist).mem isRead
    exact ⟨isToken, Production.founded_declarations faulty⟩

/-- Numbers are always read. The text of a number token is a numeral; of a numeral, a number is read
that reaches up to its second dot; and no text is refused for a number that cannot be read.
-/
theorem numerals_are_read
    : (∀ text, ∀ token ∈ tokenize text, token.kind = .number → IsNumeral token.text.toList)
      ∧ (∀ numeral,
          IsNumeral numeral
          → ∃ x,
              ReadsUpTo numeral (beforeSecondDot numeral) x
              ∧ Binary64.readLongest? numeral = some x)
      ∧ ∀ strict text error,
          Schema.ofText strict text = .error (.malformed error)
          → ∀ token, error.fault ≠ .unreadableNumber token := by
  refine ⟨fun _ _ => isNumeral_of_mem_tokenize, fun numeral isNumeral => ?_, ?_⟩
  · obtain ⟨x, readsUpTo⟩ := isNumeral.readsUpTo
    exact ⟨x, readsUpTo, readsUpTo.readLongest?_eq⟩
  · intro strict text error failed token isAtFault
    obtain ⟨isMember, isNumber, unreadable⟩ := Schema.unreadable_of_malformed failed isAtFault
    obtain ⟨x, readsUpTo⟩ := (isNumeral_of_mem_tokenize isMember isNumber).readsUpTo
    exact absurd (readsUpTo.readLongest?_eq.symm.trans unreadable) (by simp)

end SchemaDoc
