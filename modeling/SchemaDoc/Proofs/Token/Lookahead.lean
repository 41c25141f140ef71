import SchemaDoc.Proofs.Lists
import SchemaDoc.Token.Lexeme

/-! What a lexeme depends on: its own characters, and the one behind them.
Another text may follow it if it begins with the same character, or with one that goes on with no
token, or if both begin words.
-/

namespace SchemaDoc.Lexeme

-----------------------------------------------------------------------------------------
-- Texts that stop a token
-----------------------------------------------------------------------------------------

/-- A text that stops a token which another text stops. It begins with the same character, with a
line break, with a blank in place of a character that is no line break, or with a character that
begins a word in place of another one.
-/
def Stops (rest other : List Char) : Prop :=
  ∀ d ∈ other.head?,
    d ∈ rest.head?
    ∨ d = '\n'
    ∨ (d = ' ' ∧ ∃ c ∈ rest.head?, c ≠ '\n')
    ∨ (isWordStart d = true ∧ ∃ c ∈ rest.head?, isWordStart c = true)

theorem Stops.not_cons {rest other : List Char} (stops : Stops rest other) {d : Char}
    (isPlain : d ∉ ['\n', ' '] ∧ isWordStart d = false) (differs : ∀ behind, rest ≠ d :: behind)
    : ∀ behind, other ≠ d :: behind := by
  rintro behind rfl
  obtain ⟨notMember, noWord⟩ := isPlain
  rcases stops d rfl with same | isBreak | ⟨isBlank, -⟩ | ⟨isStart, -⟩
  · obtain ⟨behind, split⟩ := List.head?_eq_some_iff.mp same
    exact differs behind split
  · exact notMember (isBreak ▸ List.mem_cons_self)
  · exact notMember (isBlank ▸ List.mem_cons_of_mem _ List.mem_cons_self)
  · simp [noWord] at isStart

/-- The first character is the same with another text behind a run, unless that is at the front. -/
theorem Stops.not_cons_append {p : Char → Bool} {text other : List Char}
    (stops : Stops (text.dropWhile p) other) {d : Char}
    (isPlain : d ∉ ['\n', ' '] ∧ isWordStart d = false) (differs : ∀ behind, text ≠ d :: behind)
    : ∀ behind, text.takeWhile p ++ other ≠ d :: behind := by
  cases text with
  | nil => exact stops.not_cons isPlain differs
  | cons c rest =>
      by_cases isPart : p c = true
      · rw [List.takeWhile_cons_of_pos isPart]
        intro behind same
        exact differs rest (congrArg (· :: rest) (List.cons.inj same).1)
      · rw [List.dropWhile_cons_of_neg isPart] at stops
        rw [List.takeWhile_cons_of_neg isPart]
        exact stops.not_cons isPlain differs

/-- Where a run of characters ends, a text that stops it ends it too. -/
theorem Stops.fails {p : Char → Bool} {text other : List Char}
    (stops : Stops (text.dropWhile p) other) (atBreak : p '\n' = false)
    (atBlank : p ' ' = false ∨ ∀ c, p c = false → c = '\n')
    (atWord : ∀ c d, isWordStart c = true → isWordStart d = true → p c = false → p d = false)
    : ∀ d ∈ other.head?, p d = false := by
  have ends (c : Char) (isFirst : c ∈ (text.dropWhile p).head?) : p c = false := by
    have fails := List.head?_dropWhile_not p text
    rwa [Option.mem_def.mp isFirst] at fails
  intro d isFirst
  rcases stops d isFirst with
    same | rfl | ⟨rfl, c, isFirst', notBreak⟩ | ⟨isStart, c, isFirst', isStart'⟩
  · exact ends d same
  · exact atBreak
  · rcases atBlank with fails | onlyBreak
    · exact fails
    · exact absurd (onlyBreak c (ends c isFirst')) notBreak
  · exact atWord c d isStart' isStart (ends c isFirst')

theorem isWordPart_of_isWordStart {c : Char} (isStart : isWordStart c = true)
    : isWordPart c = true := by
  grind [isWordPart, isWordStart, Char.isAlphanum]

/-- Letters are those of ASCII. -/
theorem toNat_of_isAlpha {c : Char} (isAlpha : c.isAlpha = true)
    : 65 ≤ c.toNat ∧ c.toNat ≤ 90 ∨ 97 ≤ c.toNat ∧ c.toNat ≤ 122 := by
  rcases (Bool.or_eq_true _ _).mp isAlpha with isUpper | isLower
  · obtain ⟨low, high⟩ := of_decide_eq_true isUpper
    exact .inl ⟨UInt32.le_iff_toNat_le.mp low, UInt32.le_iff_toNat_le.mp high⟩
  · obtain ⟨low, high⟩ := (Bool.and_eq_true _ _).mp isLower
    exact .inr ⟨UInt32.le_iff_toNat_le.mp (of_decide_eq_true low),
      UInt32.le_iff_toNat_le.mp (of_decide_eq_true high)⟩

theorem not_isNumberPart_of_isWordStart {c : Char} (isStart : isWordStart c = true)
    : isNumberPart c = false := by
  rw [isWordStart, Bool.or_eq_true, beq_iff_eq] at isStart
  rcases isStart with isAlpha | rfl
  · have bounds := toNat_of_isAlpha isAlpha
    have notDot : c ≠ '.' := by
      rintro rfl
      exact absurd bounds (by decide)
    have noDigit : ¬c.isDigit = true := by
      have last : '9'.toNat = 57 := rfl
      rw [Char.isDigit_iff_toNat]
      omega
    simp [isNumberPart, notDot, noDigit]
  · decide

-----------------------------------------------------------------------------------------
-- Lexemes with another text behind
-----------------------------------------------------------------------------------------

theorem comment_of_stops {kind : TokenKind} {slashes text other : List Char}
    (stops : Stops (comment kind slashes text).rest other)
    : comment kind slashes (text.takeWhile (· ≠ '\n') ++ other)
      = { comment kind slashes text with rest := other } := by
  have fails := stops.fails (by simp) (.inr fun c => by simp) fun c d isStart _ isBreak => by
    simp only [decide_eq_false_iff_not, not_not] at isBreak
    exact absurd isStart (isBreak ▸ by decide)
  simp only [comment, takeWhile_append_of_fails fails, dropWhile_append_of_fails fails]

theorem number_of_stops {sign text other : List Char} (stops : Stops (number sign text).rest other)
    : number sign (text.takeWhile isNumberPart ++ other)
      = { number sign text with rest := other } := by
  have fails := stops.fails (by decide) (.inl (by decide))
    fun _ _ _ isStart _ => not_isNumberPart_of_isWordStart isStart
  simp only [number, verbatim, takeWhile_append_of_fails fails, dropWhile_append_of_fails fails]

theorem word_of_stops {text other : List Char} (stops : Stops (word text).rest other)
    : word (text.takeWhile isWordPart ++ other) = { word text with rest := other } := by
  have fails := stops.fails (by decide) (.inl (by decide))
    fun _ _ isStart _ notPart => by simp [isWordPart_of_isWordStart isStart] at notPart
  simp only [word, verbatim, takeWhile_append_of_fails fails, dropWhile_append_of_fails fails]

/-- A string that is closed may be followed by anything. -/
theorem stringBody_of_closed {quote : Char} {text other : List Char}
    (closed : (stringBody quote text).2.2 = [] → other = [])
    : stringBody quote ((stringBody quote text).2.1 ++ other)
      = ((stringBody quote text).1, (stringBody quote text).2.1, other) := by
  fun_induction stringBody quote text with
  | case1 => simp [closed rfl, stringBody]
  | case2 rest =>
      rw [List.singleton_append, stringBody.eq_def]
      simp
  | case3 notQuote => simp [closed rfl, stringBody, notQuote]
  | case4 escaped rest content source behind read notQuote ih =>
      rw [read] at ih
      rw [List.cons_append, List.cons_append, stringBody.eq_def]
      simp [notQuote, ih closed]
  | case5 c rest notQuote notEscape content source behind read ih =>
      rw [read] at ih
      rw [List.cons_append, stringBody.eq_def]
      simp [notQuote, notEscape, ih closed]

theorem string_of_closed {quote : Char} {text other : List Char}
    (closed : (string quote text).rest = [] → other = [])
    : string quote ((stringBody quote text).2.1 ++ other)
      = { string quote text with rest := other } := by
  rw [string, stringBody_of_closed closed]
  rfl

-----------------------------------------------------------------------------------------
-- Characters that stand alone
-----------------------------------------------------------------------------------------

/-- A character that cannot begin a token together with the next one, unless the token is a
string, a number or a word.
-/
structure StandsAlone (c : Char) (rest : List Char) : Prop where
  notBreak : c ≠ '\n'
  notComment : ∀ behind, c = '/' → rest ≠ '/' :: behind
  notDouble : ∀ behind, c = '@' → rest ≠ '@' :: behind
  notSign : c ≠ '-'

theorem standsAlone_of_holds (p : Char → Prop) (excludes : ∀ d ∈ ['\n', '/', '@', '-'], ¬p d)
    {c : Char} (holds : p c) (rest : List Char)
    : StandsAlone c rest := by
  have differs : c ∉ ['\n', '/', '@', '-'] := fun isMember => excludes c isMember holds
  simp only [List.mem_cons, List.not_mem_nil, or_false, not_or] at differs
  obtain ⟨notBreak, notSlash, notAt, notSign⟩ := differs
  exact ⟨notBreak, fun _ isSlash => absurd isSlash notSlash, fun _ isAt => absurd isAt notAt,
    notSign⟩

theorem StandsAlone.of_stops {c : Char} {rest other : List Char} (alone : StandsAlone c rest)
    (stops : Stops rest other)
    : StandsAlone c other where
  notBreak := alone.notBreak
  notComment := fun behind isSlash =>
    stops.not_cons (by decide) (fun behind => alone.notComment behind isSlash) behind
  notDouble := fun behind isAt =>
    stops.not_cons (by decide) (fun behind => alone.notDouble behind isAt) behind
  notSign := alone.notSign

theorem first?_of_standsAlone {c : Char} {rest : List Char} (alone : StandsAlone c rest)
    : first? (c :: rest)
      = if c = '"' ∨ c = '\x27' then some (string c rest)
        else if c.isDigit then some (number [] (c :: rest))
        else if isWordStart c then some (word (c :: rest))
        else (TokenKind.ofSymbol? c).map fun kind => verbatim kind [c] rest := by
  obtain ⟨notBreak, notComment, notDouble, notSign⟩ := alone
  rw [first?]
  · cases TokenKind.ofSymbol? c <;> rfl
  all_goals grind

/-- The first character of a lexeme is that of the text it is read from. -/
theorem source_append_eq_cons {c : Char} {rest : List Char} {lexeme : Lexeme}
    (read : first? (c :: rest) = some lexeme) (back : List Char)
    : lexeme.source ++ back = c :: (lexeme.source.tail ++ back) := by
  have whole := source_append_rest read
  cases split : lexeme.source with
  | nil => exact absurd split (source_ne_nil read)
  | cons d source =>
      rw [split] at whole
      rw [(List.cons.inj whole).1]
      rfl

/-- A lexeme is read again with another text behind it that stops it, by cases on how it was read.
Only a string that is never closed has to have nothing behind it.
-/
theorem first?_of_stops {text other : List Char} {lexeme : Lexeme}
    (read : first? text = some lexeme) (stops : Stops lexeme.rest other)
    (closed : lexeme.kind = .string → lexeme.rest = [] → other = [])
    : first? (lexeme.source ++ other) = some { lexeme with rest := other } := by
  revert read
  fun_cases first? text <;> rintro ⟨⟩
  case case2 => rfl
  case case3 => exact congrArg some (comment_of_stops stops)
  case case4 rest notDoc =>
    have notDoc' := stops.not_cons_append (by decide) fun behind => notDoc behind
    rw [← comment_of_stops stops]
    exact first?.eq_4 _ notDoc'
  case case5 => rfl
  case case6 d rest isDigit =>
    have isPart : isNumberPart d = true := by simp [isNumberPart, isDigit]
    have again := @number_of_stops ['-'] (d :: rest) _ stops
    rw [List.takeWhile_cons_of_pos isPart, List.cons_append] at again
    rw [← again]
    simp [number, verbatim, List.takeWhile_cons_of_pos isPart, first?, isDigit]
  case case8 c rest notBreak _ notComment notDouble _ isQuote =>
    have again := first?_of_standsAlone
      (standsAlone_of_holds (fun c => c = '"' ∨ c = '\x27') (by simp) isQuote
        ((stringBody c rest).2.1 ++ other))
    rw [if_pos isQuote, string_of_closed (closed rfl)] at again
    exact again
  case case9 c rest notBreak _ notComment notDouble _ notQuote isDigit =>
    have isPart : isNumberPart c = true := by simp [isNumberPart, isDigit]
    have same := @number_of_stops [] (c :: rest) _ stops
    have again := first?_of_standsAlone
      (standsAlone_of_holds (fun c => c.isDigit) (by simp) isDigit
        (rest.takeWhile isNumberPart ++ other))
    rw [if_neg notQuote, if_pos isDigit, ← List.cons_append,
      ← List.takeWhile_cons_of_pos isPart, same] at again
    exact again
  case case10 c rest notBreak _ notComment notDouble _ notQuote notDigit isStart =>
    have isPart := isWordPart_of_isWordStart isStart
    have same := @word_of_stops (c :: rest) _ stops
    have again := first?_of_standsAlone
      (standsAlone_of_holds (fun c => isWordStart c) (by simp [isWordStart]) isStart
        (rest.takeWhile isWordPart ++ other))
    rw [if_neg notQuote, if_neg notDigit, if_pos isStart, ← List.cons_append,
      ← List.takeWhile_cons_of_pos isPart, same] at again
    exact again
  case case11 c rest notBreak _ notComment notDouble _ notQuote notDigit notStart kind isSymbol =>
    have alone : StandsAlone c rest :=
      ⟨notBreak, notComment, notDouble, by rintro rfl; simp [TokenKind.ofSymbol?] at isSymbol⟩
    have again := first?_of_standsAlone (alone.of_stops stops)
    rw [if_neg notQuote, if_neg notDigit, if_neg notStart, isSymbol] at again
    exact again

end SchemaDoc.Lexeme
