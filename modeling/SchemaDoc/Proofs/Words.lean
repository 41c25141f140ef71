import SchemaDoc.Proofs.Grammar.TruthValues
import SchemaDoc.Proofs.Layout
import SchemaDoc.Proofs.StrictReading
import SchemaDoc.Proofs.Token.Rewording

/-! Which words can name things.
In any schema text any word can stand in the place of any name, keywords included, and the schema
is the same but for that name. The exception are the two truth values, in any letter case.
-/

namespace SchemaDoc

open TokenKind (IsTruthValue)
open Grammar (ReadAs NoDots renames_schema not_readAs_of_boolean)

-----------------------------------------------------------------------------------------
-- Tokens without columns and offsets
-----------------------------------------------------------------------------------------

namespace Token

theorem significant_map_onLine (tokens : List Token)
    : significant (tokens.map onLine) = (significant tokens).map onLine :=
  List.filter_map ..

theorem trailing_map_onLine (tokens : List Token)
    : trailing (tokens.map onLine) = trailing tokens := by
  rw [trailing, ← List.map_tail, List.zipWith_map]
  rfl

/-- Tokens that are the same but for columns and offsets differ in layout only. -/
theorem differInLayout_of_onLine {ts us : List Token} (same : ts.map onLine = us.map onLine)
    : DifferInLayout (significant ts) (significant us) := by
  have same : (significant ts).map onLine = (significant us).map onLine := by
    rw [← significant_map_onLine, ← significant_map_onLine, same]
  have kinds := congrArg (List.map kind) same
  have texts := congrArg (List.map text) same
  rw [List.map_map, List.map_map] at kinds texts
  exact ⟨kinds, texts, by rw [← trailing_map_onLine, same, trailing_map_onLine]⟩

/-- What counts of some tokens stays the same with another token in the place of one of it. -/
theorem exists_split_of_beforeEnd {tokens front back : List Token} {token : Token}
    (split : beforeEnd tokens = front ++ token :: back)
    : ∃ front' back',
        tokens = front' ++ token :: back'
        ∧ ∀ other,
            other.IsProper → beforeEnd (front' ++ other :: back') = front ++ other :: back := by
  let counts (t : Token) : Bool := t.kind ≠ .endOfInput
  have allCount : ∀ t ∈ front ++ token :: back, counts t = true :=
    fun t isMember => decide_eq_true (notEnd_of_mem_beforeEnd (split ▸ isMember))
  obtain ⟨rest, whole⟩ : ∃ rest, significant tokens = (front ++ token :: back) ++ rest := by
    rw [← split]
    exact ⟨_, List.takeWhile_append_dropWhile.symm⟩
  have ends : rest.takeWhile counts = [] := by
    rw [beforeEnd, whole, List.takeWhile_append_of_pos allCount] at split
    exact List.append_right_eq_self.mp split
  have frontCounts := (List.forall_mem_append.mp allCount).1
  have backCounts := (List.forall_mem_cons.mp (List.forall_mem_append.mp allCount).2).2
  rw [List.append_assoc, List.cons_append] at whole
  obtain ⟨front', behind, rfl, isFront, isBehind⟩ := List.filter_eq_append_iff.mp whole
  obtain ⟨trivia, back', rfl, areTrivia, -, isBack⟩ := List.filter_eq_cons_iff.mp isBehind
  refine ⟨front' ++ trivia, back', (List.append_assoc ..).symm, fun other isProper => ?_⟩
  have kept : significant (front' ++ trivia ++ other :: back')
      = front ++ other :: (back ++ rest) := by
    have noneKept : trivia.filter (fun token => !token.isTrivia) = [] :=
      List.filter_eq_nil_iff.mpr areTrivia
    rw [significant, List.filter_append, List.filter_append, isFront, noneKept, List.append_nil,
      List.filter_cons_of_pos (by simp [isProper.1]), isBack]
  have otherCounts : counts other = true := decide_eq_true isProper.2
  rw [beforeEnd, kept, List.takeWhile_append_of_pos frontCounts,
    List.takeWhile_cons_of_pos otherCounts, List.takeWhile_append_of_pos backCounts, ends,
    List.append_nil]

theorem isProper_reword (word : List Char) (token : Token) : (token.reword word).IsProper := by
  rcases TokenKind.ofWord_cases word with ⟨-, isBoolean⟩ | ⟨-, canName⟩
  · simp [IsProper, isTrivia, reword, isBoolean, TokenKind.isTrivia]
  · exact Grammar.isProper_of_isWord canName

end Token

-----------------------------------------------------------------------------------------
-- Readings of texts with another word
-----------------------------------------------------------------------------------------

theorem noDots_beforeEnd (text : String) : NoDots (Token.beforeEnd (tokenize text)) := by
  intro token isMember canName
  have isToken := ((List.takeWhile_sublist _).trans List.filter_sublist).mem isMember
  obtain ⟨front, back, split⟩ := List.append_of_mem isToken
  obtain ⟨_, word, _, -, isWord, same, -⟩ := Scan.exists_word .start text.toList split canName
  rw [← same, Token.reword, String.toList_ofList]
  exact isWord.not_mem (by decide)

namespace Schema

theorem ofText_eq_ok_iff {strict : Bool} {text : String} {schema : Schema}
    : ofText strict text = .ok schema
      ↔ ReadAs (Token.beforeEnd (tokenize text)) schema
        ∧ (strict = true → (Scan.ofText text).skipped = []) := by
  cases strict with
  | false => simp [ofText_eq_ok, ReadAs]
  | true => simp [ofText_strict_eq_iff, ofText_eq_ok, ReadAs, skipped_eq_nil_iff]

/-- Tokens that are the same but for columns and offsets are read as the same schema, up to places.
-/
theorem exists_readAs_of_onLine {ts us : List Token} {schema : Schema}
    (same : ts.map Token.onLine = us.map Token.onLine)
    (isRead : ReadAs (Token.beforeEnd ts) schema)
    : ∃ schema',
        ReadAs (Token.beforeEnd us) schema' ∧ schema'.eraseSpans = schema.eraseSpans := by
  obtain ⟨last, last', alike⟩ := (Token.differInLayout_of_onLine same).exists_alikeBehind
  have before : Token.AlikeBehind .blind last last' (Token.beforeEnd ts) (Token.beforeEnd us) :=
    alike.takeWhile fun alike => by rw [alike.kind]
  have begins : Cursor.AlikeAhead .blind ⟨Token.firstEnd ts 0, Token.beforeEnd ts⟩
      ⟨Token.firstEnd us 0, Token.beforeEnd us⟩ :=
    ⟨rfl, last, last', before⟩
  have runs := Production.declarations_alike begins
  have read : ofTokens ts 0 = .ok schema := ofTokens_eq_ok.mpr isRead
  obtain ⟨schema', read', same⟩
      : ∃ schema', ofTokens us 0 = .ok schema' ∧ schema'.eraseSpans = schema.eraseSpans := by
    simp only [ofTokens] at read ⊢
    generalize Production.declarations ⟨Token.firstEnd ts 0, _⟩ = ending,
      Production.declarations ⟨Token.firstEnd us 0, _⟩ = ending' at runs read ⊢
    cases runs with
    | ok agree =>
        obtain rfl := Except.ok.inj read
        exact ⟨_, rfl, (ofDeclarations_same agree).symm⟩
    | error => simp at read
  exact ⟨schema', ofTokens_eq_ok.mp read', same⟩

/-- Any word can be put in the place of a word that can name things. What is then read is what the
tokens of the text are read as with the other word among them, up to places.
-/
theorem exists_reworded {strict : Bool} {text : String} {front back : List Token} {token : Token}
    (noneSkipped : strict = true → (Scan.ofText text).skipped = [])
    (counted : Token.beforeEnd (tokenize text) = front ++ token :: back)
    (canName : token.isWord = true)
    : ∃ before after,
        text.toList = before ++ (token.text.toList ++ after)
        ∧ ∀ word : String,
            IsWord word.toList
            → ∀ schema : Schema,
                (∃ s,
                  ofText strict (String.ofList (before ++ (word.toList ++ after))) = .ok s
                  ∧ s.eraseSpans = schema.eraseSpans)
                ↔ ∃ s,
                    ReadAs (front ++ token.reword word.toList :: back) s
                    ∧ s.eraseSpans = schema.eraseSpans := by
  obtain ⟨front', back', split, counts⟩ := Token.exists_split_of_beforeEnd counted
  obtain ⟨before, spelling, after, isText, -, same, reworded⟩ :=
    Scan.exists_word .start text.toList split canName
  have isSpelled : String.ofList spelling = token.text := congrArg Token.text same
  refine ⟨before, after, by rw [← isSpelled, String.toList_ofList, isText],
    fun word isWord schema => ?_⟩
  have outline := reworded word.toList isWord
  rw [Scan.outline, Prod.mk.injEq] at outline
  rw [← counts _ (token.isProper_reword word.toList)]
  constructor
  · rintro ⟨s, read, sameSpans⟩
    have isRead := (ofText_eq_ok_iff.mp read).1
    rw [tokenize, Scan.ofText, String.toList_ofList] at isRead
    obtain ⟨s', isRead', sameSpans'⟩ := exists_readAs_of_onLine outline.1 isRead
    exact ⟨s', isRead', sameSpans'.trans sameSpans⟩
  · rintro ⟨s, isRead, sameSpans⟩
    obtain ⟨s', isRead', sameSpans'⟩ := exists_readAs_of_onLine outline.1.symm isRead
    refine ⟨s', ofText_eq_ok_iff.mpr ?_, sameSpans'.trans sameSpans⟩
    rw [tokenize, Scan.ofText, String.toList_ofList]
    refine ⟨isRead', fun isStrict => List.map_eq_nil_iff.mp (outline.2.trans ?_)⟩
    exact List.map_eq_nil_iff.mpr (noneSkipped isStrict)

end Schema

-----------------------------------------------------------------------------------------
-- Words as names
-----------------------------------------------------------------------------------------

/-- Every word can take the place of a name, keywords included, but for the truth values. The name
stands somewhere in the text. The text with another word there is read, strictly or not, as the
schema with that word for that name, up to places; and it is refused if the word is a truth value
in any letter case.
-/
theorem words_can_be_names {strict : Bool} {text : String} {schema : Schema} {slot : SchemaSlot}
    {name : String} (read : Schema.ofText strict text = .ok schema)
    (found : schema.nameAt slot = some name)
    : ∃ before after,
        text.toList = before ++ (name.toList ++ after)
        ∧ ∀ word : String,
            IsWord word.toList
            → let reworded := String.ofList (before ++ (word.toList ++ after))
              (¬IsTruthValue word.toList
                → ∃ renamed,
                    Schema.ofText strict reworded = .ok renamed
                    ∧ renamed.nameAt slot = some word
                    ∧ renamed.eraseSpans = (schema.rename slot word).eraseSpans)
              ∧ (IsTruthValue word.toList
                → ∀ other, Schema.ofText strict reworded ≠ .ok other) := by
  obtain ⟨isRead, noneSkipped⟩ := Schema.ofText_eq_ok_iff.mp read
  have named := renames_schema slot isRead (noDots_beforeEnd text) found
  generalize counted : Token.beforeEnd (tokenize text) = tokens at named
  obtain @⟨front, token, back, canName, replace⟩ := named
  obtain ⟨before, after, split, reads⟩ := Schema.exists_reworded noneSkipped counted canName
  refine ⟨before, after, split, fun word isWord => ⟨fun notTruthValue => ?_, ?_⟩⟩
  · have canName' : (token.reword word.toList).isWord = true :=
      ((TokenKind.ofWord_cases word.toList).resolve_left fun both => notTruthValue both.1).2
    have isRead' := replace (token.reword word.toList) ⟨canName, canName', rfl, rfl⟩
    have spelled : (token.reword word.toList).text = word := String.ofList_toList
    rw [spelled] at isRead'
    obtain ⟨renamed, readAgain, same⟩ := (reads word isWord _).mpr ⟨_, isRead', rfl⟩
    refine ⟨renamed, readAgain, ?_, same⟩
    rw [Schema.nameAt_eq_of_eraseSpans same]
    exact schema.nameAt_rename (isWord.not_mem (by decide)) slot (by simp [found])
  · intro isTruthValue other readAgain
    have isBoolean : (token.reword word.toList).kind = .boolean :=
      ((TokenKind.ofWord_cases word.toList).resolve_right fun both => both.1 isTruthValue).2
    obtain ⟨_, isRead', -⟩ := (reads word isWord other).mp ⟨other, readAgain, rfl⟩
    have areProper : ∀ t ∈ front ++ token :: back, t.IsProper :=
      fun t isMember => Token.isProper_of_mem_beforeEnd (counted ▸ isMember)
    exact not_readAs_of_boolean canName (by simp [found]) replace areProper isBoolean _ isRead'

/-- The keywords can take the place of the name of an argument, but `TRUE` cannot. -/
theorem keyword_can_be_argument_name
    : let text := "model A \x7b x Int @default(value: 1) \x7d"
      let slot : SchemaSlot := .model 0 (.member 0 (.attributes 0 (.argument 0)))
      ∃ schema before after,
        Schema.ofText true text = .ok schema
        ∧ schema.nameAt slot = some "value"
        ∧ text.toList = before ++ ("value".toList ++ after)
        ∧ (∃ renamed,
            Schema.ofText true (String.ofList (before ++ ("Model".toList ++ after))) = .ok renamed
            ∧ renamed.nameAt slot = some "Model")
        ∧ ∀ other,
            Schema.ofText true (String.ofList (before ++ ("TRUE".toList ++ after)))
              ≠ .ok other := by
  intro text slot
  have reads : (Schema.ofText true text).toOption.bind (·.nameAt slot) = some "value" := by
    decide +kernel
  cases read : Schema.ofText true text with
  | error => simp [read, Except.toOption] at reads
  | ok schema =>
      rw [read] at reads
      have found : schema.nameAt slot = some "value" := reads
      obtain ⟨before, after, split, reworded⟩ := words_can_be_names read found
      obtain ⟨renamed, readAgain, isName, -⟩ := (reworded "Model" (by decide)).1 (by decide)
      exact ⟨schema, before, after, rfl, found, split, ⟨renamed, readAgain, isName⟩,
        (reworded "TRUE" (by decide)).2 (by decide)⟩

/-- A text that is refused for the word in the place of `x`, which can stand there itself. -/
theorem truth_value_is_no_name
    : IsWord "true".toList
      ∧ (∃ schema,
          Schema.ofText false "model x \x7b\x7d" = .ok schema
          ∧ schema.nameAt (.model 0 .name) = some "x")
      ∧ ∀ schema, Schema.ofText false "model true \x7b\x7d" ≠ .ok schema := by
  refine ⟨by decide, ?_, fun schema read => ?_⟩
  · have reads : (Schema.ofText false "model x \x7b\x7d").toOption.bind (·.nameAt (.model 0 .name))
        = some "x" := by
      decide +kernel
    cases read : Schema.ofText false "model x \x7b\x7d" with
    | error => simp [read, Except.toOption] at reads
    | ok schema =>
        rw [read] at reads
        exact ⟨schema, rfl, reads⟩
  · have fails : (Schema.ofText false "model true \x7b\x7d").toOption = none := by decide +kernel
    simp [read, Except.toOption] at fails

end SchemaDoc
