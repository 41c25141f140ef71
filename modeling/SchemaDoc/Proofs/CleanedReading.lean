import SchemaDoc.Proofs.Grammar.AlignedReading
import SchemaDoc.Proofs.Positions
import SchemaDoc.Proofs.Token.Cleaning

/-! A permissive reading of a text is a strict reading of the cleaned text.
The two give the same schema or the same error, on the same line and column; only offsets are
carried over.
-/

namespace SchemaDoc

open String (utf8Len)

-----------------------------------------------------------------------------------------
-- Errors whose places are changed
-----------------------------------------------------------------------------------------

/-- A fault with the place of its token changed. -/
def Fault.mapSpan (change : Span → Span) : Fault → Fault
  | unexpected expected found => unexpected expected (found.map (Token.mapSpan change))
  | unreadableNumber token => unreadableNumber (token.mapSpan change)

/-- A syntax error with its places changed, on the same line and column. -/
def SyntaxError.mapSpan (change : Span → Span) (error : SyntaxError) : SyntaxError :=
  { error with
    fault := error.fault.mapSpan change
    span := change error.span }

/-- An error with its places changed, on the same line and column. -/
def SourceError.mapSpan (change : Span → Span) : SourceError → SourceError
  | unknownCharacter skipped => unknownCharacter skipped
  | malformed error => malformed (error.mapSpan change)

-----------------------------------------------------------------------------------------
-- Places in a cleaned text
-----------------------------------------------------------------------------------------

/-- A place of a text and the one it is carried over to are on one line and in one column. -/
theorem Position.IsIn.level {text : String} {p q : Position} (isIn : p.IsIn text)
    (isIn' : q.IsIn (cleaned text))
    (carried : q.offset = carryOffset text.toList (cleaned text).toList p.offset)
    : p.Level q := by
  obtain ⟨before, after, split, rfl⟩ := isIn
  obtain ⟨before', after', split', rfl⟩ := isIn'
  have alike : BreakAlike text.toList (cleaned text).toList := by
    rw [toList_cleaned]
    exact cleanedFrom_breakAlike .start text.toList
  have cut : before = text.toList.take before.length := by
    rw [split, List.take_left]
  have cut' : before' = (cleaned text).toList.take before.length := by
    refine prefix_eq_of_utf8Len_eq ⟨after', split'.symm⟩ (List.take_prefix ..) ?_
    rw [← carryOffset_take alike, ← cut]
    exact carried
  rw [← after_start, ← after_start, cut']
  conv_lhs => rw [cut]
  exact Level.after ⟨rfl, rfl⟩ (List.forall₂_take _ alike)

-----------------------------------------------------------------------------------------
-- Tokens and errors of a cleaned text
-----------------------------------------------------------------------------------------

theorem Span.inCleaned_merge (text : String) (s t : Span)
    : (s.merge t).inCleaned text = (s.inCleaned text).merge (t.inCleaned text) := by
  have mono := carryOffset_mono text.toList (cleaned text).toList
  simp only [inCleaned, carry, merge, mono.map_min, mono.map_max]

/-- What is seen of the places of a text and of the cleaned text. -/
def SpanView.inCleaned (text : String) : SpanView where
  left := Span.inCleaned text
  right := id
  left_merge := Span.inCleaned_merge text
  right_merge := Span.id_merge

theorem Token.tokenize_cleaned (text : String)
    : tokenize (cleaned text) = (tokenize text).map (mapSpan (Span.inCleaned text)) :=
  congrArg Scan.tokens (scan_cleaned text)

theorem Token.mapSpan_alike (text : String) (token : Token)
    : token.Alike (.inCleaned text) (token.mapSpan (Span.inCleaned text)) :=
  ⟨rfl, rfl, rfl⟩

theorem Token.mapSpan_alikeBehind (text : String) (last : Token) (tokens : List Token)
    : AlikeBehind (.inCleaned text) last (last.mapSpan (Span.inCleaned text)) tokens
        (tokens.map (mapSpan (Span.inCleaned text))) := by
  induction tokens generalizing last with
  | nil => exact .nil
  | cons token tokens ih => exact .cons (mapSpan_alike text token) rfl (ih token)

theorem Token.significant_map_mapSpan (change : Span → Span) (tokens : List Token)
    : significant (tokens.map (mapSpan change)) = (significant tokens).map (mapSpan change) :=
  List.filter_map ..

theorem Token.beforeEnd_map_mapSpan (change : Span → Span) (tokens : List Token)
    : beforeEnd (tokens.map (mapSpan change)) = (beforeEnd tokens).map (mapSpan change) := by
  rw [beforeEnd, significant_map_mapSpan, List.takeWhile_map]
  rfl

theorem Token.firstEnd_map_mapSpan (change : Span → Span) (text : String) (size : Nat)
    : firstEnd ((tokenize text).map (mapSpan change)) size
      = (firstEnd (tokenize text) text.utf8ByteSize).mapSpan change := by
  have isEnded : ∃ ending,
      (significant (tokenize text)).find? (·.kind = .endOfInput) = some ending := by
    obtain ⟨front, split, -⟩ := (scans_tokenize text).ending_eq
    have isLast : Token.ending (.after .start text.toList) ∈ significant (tokenize text) :=
      List.mem_filter.mpr ⟨by simp [split], rfl⟩
    exact Option.isSome_iff_exists.mp (List.find?_isSome.mpr ⟨_, isLast, rfl⟩)
  obtain ⟨ending, found⟩ := isEnded
  have found' : (significant ((tokenize text).map (mapSpan change))).find? (·.kind = .endOfInput)
      = some (ending.mapSpan change) := by
    rw [significant_map_mapSpan, List.find?_map]
    exact congrArg (Option.map _) found
  simp only [firstEnd, found, found', Option.getD_some]

theorem Token.Alike.eq_mapSpan {text : String} {t u : Token} (alike : t.Alike (.inCleaned text) u)
    (line : t.line = u.line) (column : t.column = u.column)
    : u = t.mapSpan (Span.inCleaned text) := by
  obtain ⟨kind, text, span⟩ := alike
  cases u
  simp only [mapSpan, Token.mk.injEq]
  exact ⟨kind.symm, text.symm, line.symm, column.symm, span.symm⟩

/-- Faults that agree make the same error, if their places are on one line and in one column. -/
theorem SyntaxError.ofFault_mapSpan {text : String} {fault fault' : Fault} {ending : Token}
    (alike : fault.Alike (.inCleaned text) fault')
    (level
      : (SourceError.malformed (.ofFault fault ending)).position.Level
          (SourceError.malformed
            (.ofFault fault' (ending.mapSpan (Span.inCleaned text)))).position)
    : ofFault fault' (ending.mapSpan (Span.inCleaned text))
      = (ofFault fault ending).mapSpan (Span.inCleaned text) := by
  obtain ⟨line, column⟩ := level
  cases alike with
  | unexpected alike =>
      cases alike with
      | none => rfl
      | some alike =>
          obtain rfl := alike.eq_mapSpan line column
          rfl
  | unreadableNumber alike =>
      obtain rfl := alike.eq_mapSpan line column
      rfl

/-- Faults that agree are found at places of which one is carried over to the other. -/
theorem Fault.Alike.place_span {text : String} {fault fault' : Fault}
    (alike : fault.Alike (.inCleaned text) fault') (ending : Token)
    : (fault'.place (ending.mapSpan (Span.inCleaned text))).span
      = Span.inCleaned text (fault.place ending).span := by
  cases alike with
  | unexpected alike =>
      cases alike with
      | none => rfl
      | some alike => exact alike.span.symm
  | unreadableNumber alike => exact alike.span.symm

/-- Where both readings fail with faults that agree, the error of one is that of the other carried
over, since the places where they fail are level.
-/
theorem SyntaxError.ofFault_cleaned {text : String} {fault fault' : Fault} {ending : Token}
    (alike : fault.Alike (.inCleaned text) fault')
    (failed : Schema.ofTokens (tokenize text) text.utf8ByteSize = .error (.ofFault fault ending))
    (failed'
      : Schema.ofTokens (tokenize (cleaned text)) (cleaned text).utf8ByteSize
        = .error (.ofFault fault' (ending.mapSpan (Span.inCleaned text))))
    : ofFault fault' (ending.mapSpan (Span.inCleaned text))
      = (ofFault fault ending).mapSpan (Span.inCleaned text) := by
  have carried := congrArg Span.start (alike.place_span ending)
  have level := (Schema.position_isIn_of_malformed failed).level
    (Schema.position_isIn_of_malformed failed') carried
  exact ofFault_mapSpan alike level

theorem Schema.ofTokens_cleaned (text : String)
    : ofTokens (tokenize (cleaned text)) (cleaned text).utf8ByteSize
      = ((ofTokens (tokenize text) text.utf8ByteSize).map
            (mapSpan (Span.inCleaned text))).mapError
          (SyntaxError.mapSpan (Span.inCleaned text)) := by
  have begins : Cursor.Alike (.inCleaned text)
      ⟨Token.firstEnd (tokenize text) text.utf8ByteSize, Token.beforeEnd (tokenize text)⟩
      ⟨Token.firstEnd (tokenize (cleaned text)) (cleaned text).utf8ByteSize,
        Token.beforeEnd (tokenize (cleaned text))⟩ := by
    rw [Token.tokenize_cleaned, Token.firstEnd_map_mapSpan, Token.beforeEnd_map_mapSpan]
    exact ⟨rfl, Token.mapSpan_alikeBehind text _ _⟩
  have runs := Production.declarations_alike begins.ahead
  cases read : Production.declarations
      ⟨Token.firstEnd (tokenize text) text.utf8ByteSize, Token.beforeEnd (tokenize text)⟩ with
  | ok ending =>
      rw [read] at runs
      generalize read' : Production.declarations _ = ending' at runs
      cases runs with
      | ok agree _ =>
          have same := (ofDeclarations_same agree).eq.trans (mapSpan_id _)
          simp only [ofTokens, read, read', Except.map, Except.mapError]
          exact congrArg Except.ok same.symm
  | error fault =>
      rw [read] at runs
      generalize read' : Production.declarations _ = ending' at runs
      cases runs with
      | @error _ fault' alike =>
          have failed : ofTokens (tokenize text) text.utf8ByteSize
              = .error (.ofFault fault (Token.firstEnd (tokenize text) text.utf8ByteSize)) := by
            rw [ofTokens, read]
          have failed' : ofTokens (tokenize (cleaned text)) (cleaned text).utf8ByteSize
              = .error (.ofFault fault'
                  ((Token.firstEnd (tokenize text) text.utf8ByteSize).mapSpan
                    (Span.inCleaned text))) := by
            rw [ofTokens, read', Token.tokenize_cleaned, Token.firstEnd_map_mapSpan]
          rw [failed, failed']
          exact congrArg _ (SyntaxError.ofFault_cleaned alike failed failed')

/-- Skipping characters is reading blanks in their places. A strict scan of the cleaned text
succeeds with the tokens of the text, of the same kinds and texts on the same lines and columns.
A strict reading of it then gives what a permissive reading of the text gives, but for offsets.
-/
theorem skipping_is_blanking (text : String)
    : tokenizeStrict (cleaned text)
        = .ok ((tokenize text).map (Token.mapSpan (Span.inCleaned text)))
      ∧ Schema.ofText true (cleaned text)
        = ((Schema.ofText false text).map (Schema.mapSpan (Span.inCleaned text))).mapError
            (SourceError.mapSpan (Span.inCleaned text)) := by
  have strictly : tokenizeStrict (cleaned text)
      = .ok ((tokenize text).map (Token.mapSpan (Span.inCleaned text))) := by
    rw [tokenizeStrict, scan_cleaned]
  refine ⟨strictly, ?_⟩
  have left : Schema.ofText true (cleaned text)
      = (Schema.ofTokens (tokenize (cleaned text)) (cleaned text).utf8ByteSize).mapError
          .malformed := by
    simp only [Schema.ofText, if_true, strictly, Token.tokenize_cleaned]
  have right : Schema.ofText false text
      = (Schema.ofTokens (tokenize text) text.utf8ByteSize).mapError .malformed :=
    rfl
  rw [left, right, Schema.ofTokens_cleaned]
  cases Schema.ofTokens (tokenize text) text.utf8ByteSize <;> rfl

/-- A letter of two bytes becomes one blank, and so does a sign with no digit behind it. -/
example : cleaned "model#A \x7b é- 1@ @@" = "model A \x7b    1@ @@" := by decide +kernel

end SchemaDoc
