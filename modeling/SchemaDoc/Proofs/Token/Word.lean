import SchemaDoc.Proofs.Token.Lookahead

/-! Words and their kinds.
Every word is a name, but for the two truth values in any letter case.
-/

namespace SchemaDoc

/-- A word: a letter or an underscore, then letters, digits and underscores. -/
def IsWord : List Char → Prop
  | [] => False
  | c :: rest => (c.isAlpha = true ∨ c = '_') ∧ ∀ d ∈ rest, d.isAlphanum = true ∨ d = '_'

instance : DecidablePred IsWord
  | [] => inferInstanceAs (Decidable False)
  | c :: rest =>
      decidable_of_iff
        ((c.isAlpha = true ∨ c = '_') ∧ rest.all (fun d => d.isAlphanum || d == '_') = true)
        (by simp [IsWord])

namespace TokenKind

/-- The words that stand for truth values, in any letter case. -/
def IsTruthValue (word : List Char) : Prop :=
  word.map Char.toLower = "true".toList ∨ word.map Char.toLower = "false".toList

instance : DecidablePred IsTruthValue := fun word =>
  inferInstanceAs
    (Decidable (word.map Char.toLower = "true".toList ∨ word.map Char.toLower = "false".toList))

/-- A word is a truth value or can name things. -/
theorem ofWord_cases (word : List Char)
    : (IsTruthValue word ∧ ofWord word = .boolean)
      ∨ (¬IsTruthValue word ∧ (ofWord word).isWord = true) := by
  rw [IsTruthValue, ofWord]
  generalize word.map Char.toLower = folded
  by_cases isTrue : folded = "true".toList
  · exact .inl ⟨.inl isTrue, by rw [isTrue]; decide⟩
  by_cases isFalse : folded = "false".toList
  · exact .inl ⟨.inr isFalse, by rw [isFalse]; decide⟩
  refine .inr ⟨not_or.mpr ⟨isTrue, isFalse⟩, ?_⟩
  cases found : keywords.find? (·.1.toList == folded) with
  | none => rfl
  | some entry =>
      have isKeyword := List.mem_of_find?_eq_some found
      have isFolded : entry.1.toList = folded := by simpa using List.find?_some found
      simp only [keywords, List.mem_cons, List.not_mem_nil, or_false] at isKeyword
      rcases isKeyword with rfl | rfl | rfl | rfl | rfl | rfl
      · rfl
      · rfl
      · rfl
      · rfl
      · exact absurd isFolded.symm isTrue
      · exact absurd isFolded.symm isFalse

theorem not_isWord_of_ofSymbol? {c : Char} {kind : TokenKind} (isSymbol : ofSymbol? c = some kind)
    : ¬kind.isWord = true := by
  unfold ofSymbol? at isSymbol
  split at isSymbol <;> simp at isSymbol <;> subst isSymbol <;> decide

end TokenKind

-----------------------------------------------------------------------------------------
-- Words in texts
-----------------------------------------------------------------------------------------

theorem Lexeme.first?_of_isWordStart {c : Char} (isStart : isWordStart c = true)
    (rest : List Char)
    : first? (c :: rest) = some (word (c :: rest)) := by
  have alone := standsAlone_of_holds (fun c => isWordStart c) (by simp [isWordStart]) isStart rest
  have notQuote : ¬(c = '"' ∨ c = '\x27') := by
    rintro (rfl | rfl) <;> exact absurd isStart (by decide)
  have notDigit : c.isDigit = false :=
    (Bool.or_eq_false_iff.mp (not_isNumberPart_of_isWordStart isStart)).1
  rw [first?_of_standsAlone alone, if_neg notQuote, notDigit, if_pos isStart]
  rfl

namespace IsWord

variable {word : List Char} (isWord : IsWord word)

include isWord

theorem exists_start : ∃ c rest, word = c :: rest ∧ Lexeme.isWordStart c = true := by
  cases word with
  | nil => exact isWord.elim
  | cons c rest => exact ⟨c, rest, rfl, by simpa [Lexeme.isWordStart] using isWord.1⟩

theorem isWordPart {c : Char} (isMember : c ∈ word) : Lexeme.isWordPart c = true := by
  cases word with
  | nil => exact isWord.elim
  | cons d rest =>
      rcases List.mem_cons.mp isMember with rfl | isBehind
      · exact Lexeme.isWordPart_of_isWordStart (by simpa [Lexeme.isWordStart] using isWord.1)
      · simpa [Lexeme.isWordPart] using isWord.2 c isBehind

theorem not_mem {c : Char} (noPart : Lexeme.isWordPart c = false) : c ∉ word := fun isMember => by
  simp [isWord.isWordPart isMember] at noPart

/-- A word is read up to a character that does not go on with it. -/
theorem first?_eq {rest : List Char} (ends : ∀ d ∈ rest.head?, Lexeme.isWordPart d = false)
    : Lexeme.first? (word ++ rest) = some (.verbatim (.ofWord word) word rest) := by
  have all : word.takeWhile Lexeme.isWordPart = word :=
    List.takeWhile_eq_self_iff.mpr fun _ isMember => isWord.isWordPart isMember
  have front := takeWhile_append_of_fails ends word
  have back := dropWhile_append_of_fails ends word
  rw [all] at front back
  obtain ⟨c, more, rfl, isStart⟩ := isWord.exists_start
  rw [List.cons_append] at front back ⊢
  rw [Lexeme.first?_of_isWordStart isStart, Lexeme.word, front, back]

end IsWord

/-- A lexeme that can name things is a word that nothing goes on with. -/
theorem Lexeme.exists_isWord_of_first? {text : List Char} {lexeme : Lexeme}
    (read : first? text = some lexeme) (canName : lexeme.kind.isWord = true)
    : ∃ word,
        IsWord word
        ∧ lexeme = verbatim (.ofWord word) word lexeme.rest
        ∧ ∀ d ∈ lexeme.rest.head?, isWordPart d = false := by
  revert read
  fun_cases first? text <;> rintro ⟨⟩
  case case10 c rest _ _ _ _ _ _ _ isStart =>
    refine ⟨(c :: rest).takeWhile isWordPart, ?_, rfl, fun d isFirst => ?_⟩
    · rw [List.takeWhile_cons_of_pos (isWordPart_of_isWordStart isStart)]
      refine ⟨by simpa [isWordStart] using isStart, fun d isMember => ?_⟩
      simpa [isWordPart] using List.mem_takeWhile_imp isMember
    · have isBehind : ((c :: rest).dropWhile isWordPart).head? = some d := isFirst
      have fails := List.head?_dropWhile_not isWordPart (c :: rest)
      rwa [isBehind] at fails
  case case11 isSymbol => exact absurd canName (TokenKind.not_isWord_of_ofSymbol? isSymbol)
  all_goals simp [verbatim, comment, number, string, TokenKind.isWord] at canName

end SchemaDoc
