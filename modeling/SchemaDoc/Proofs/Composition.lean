import SchemaDoc.Proofs.Grammar.AlignedReading
import SchemaDoc.Proofs.Grammar.Concatenation
import SchemaDoc.Proofs.Grammar.Parsing
import SchemaDoc.Proofs.Token.Seam

/-! Two schema texts with a line break between them are one schema text, unless there is a comment
at the end of the first. Its schema has what the two schemas have, and what the second has is moved
behind the first text.
-/

namespace SchemaDoc

open Grammar

-----------------------------------------------------------------------------------------
-- Schemas
-----------------------------------------------------------------------------------------

namespace Schema

theorem ofDeclarations_append (front back : List SchemaDoc.Declaration)
    : ofDeclarations (front ++ back) = ofDeclarations front ++ ofDeclarations back := by
  rw [ofDeclarations, List.filterMap_append, List.filterMap_append]
  rfl

end Schema

-----------------------------------------------------------------------------------------
-- Declarations that are moved
-----------------------------------------------------------------------------------------

/-- The view of a text that has more text in front of it in another one. -/
def SpanView.shift (bytes : Nat) : SpanView where
  left := Span.shift bytes
  right := id
  left_merge s t := by simp [Span.shift, Span.merge]
  right_merge := Span.id_merge

/-- Tokens are like the ones that are moved, also in what they trail. -/
theorem Token.alikeBehind_shift (bytes : Nat) (lines : UInt32) (last : Token)
    (tokens : List Token)
    : Token.AlikeBehind (.shift bytes) last (last.shift bytes lines) tokens
        (tokens.map (Token.shift bytes lines)) := by
  induction tokens generalizing last with
  | nil => exact .nil
  | cons token tokens ih =>
      have sameLine : decide (token.line = last.line)
          = decide (token.line + lines = last.line + lines) :=
        decide_eq_decide.mpr (UInt32.add_left_inj lines).symm
      exact .cons ⟨rfl, rfl, rfl⟩ (congrArg _ sameLine) (ih token)

/-- Declarations that are moved are declarations, and so is the schema that they make up. -/
theorem Grammar.CommentedDeclarations.shift {tokens : List Token}
    {ds : List SchemaDoc.Declaration} (areDeclarations : CommentedDeclarations tokens ds)
    (bytes : Nat) (lines : UInt32)
    : ∃ ds',
        CommentedDeclarations (tokens.map (Token.shift bytes lines)) ds'
        ∧ Schema.ofDeclarations ds' = (Schema.ofDeclarations ds).shift bytes := by
  let start : Cursor := ⟨default, tokens⟩
  let start' : Cursor :=
    ⟨(default : Token).shift bytes lines, tokens.map (Token.shift bytes lines)⟩
  have passes : start.Passes tokens ⟨tokens.getLast?.getD default, []⟩ := ⟨by simp [start], rfl⟩
  have read := Production.declarations_eq_ok.mpr ⟨tokens, passes, rfl, areDeclarations⟩
  have alike : start.AlikeAhead (.shift bytes) start' :=
    ⟨rfl, _, _, Token.alikeBehind_shift bytes lines default tokens⟩
  have runs := Production.declarations_alike alike
  rw [read] at runs
  generalize read' : Production.declarations start' = ending at runs
  cases runs with
  | @ok _ ds' _ next agree alike =>
      obtain ⟨passed, passes', -, areDeclarations'⟩ := Production.declarations_eq_ok.mp read'
      have all : next.rest = [] := by
        have rest := alike.rest
        generalize next.rest = others at rest
        cases rest
        rfl
      have whole : tokens.map (Token.shift bytes lines) = passed := by
        simpa [all] using passes'.rest
      refine ⟨ds', whole ▸ areDeclarations', ?_⟩
      exact (Schema.mapSpan_id _).symm.trans (Schema.ofDeclarations_same agree).symm

-----------------------------------------------------------------------------------------
-- Texts with a line break between them
-----------------------------------------------------------------------------------------

/-- Declarations end in a brace, or in a comment that documents nothing. -/
theorem Grammar.CommentedDeclarations.getLast? {tokens : List Token}
    {ds : List SchemaDoc.Declaration} (areDeclarations : CommentedDeclarations tokens ds)
    : ∀ last ∈ tokens.getLast?, last.kind = .docComment ∨ last.kind = .rightBrace := by
  induction areDeclarations with
  | done areComments =>
      intro last isLast
      exact .inl (areComments last (List.mem_of_getLast? isLast))
  | @declaration comments tokens rest d ds _ isDeclaration _ ih =>
      intro last isLast
      obtain ⟨brace, isBrace, closes⟩ := isDeclaration.getLast?
      rw [List.getLast?_append, List.getLast?_append, isBrace] at isLast
      cases found : rest.getLast? with
      | some other =>
          obtain rfl : other = last := by simpa [found] using isLast
          exact ih other found
      | none =>
          obtain rfl : brace = last := by simpa [found] using isLast
          exact .inr closes

theorem Token.significant_map_shift (bytes : Nat) (lines : UInt32) (tokens : List Token)
    : Token.significant (tokens.map (Token.shift bytes lines))
      = (Token.significant tokens).map (Token.shift bytes lines) :=
  List.filter_map ..

/-- Tokens of which the significant ones are declarations do not end in a string. -/
theorem Grammar.CommentedDeclarations.notString {tokens : List Token}
    {ds : List SchemaDoc.Declaration}
    (areDeclarations : CommentedDeclarations (Token.significant tokens) ds)
    : ∀ last ∈ tokens.getLast?, last.kind ≠ .string := by
  intro last isLast isString
  obtain ⟨others, rfl⟩ := List.getLast?_eq_some_iff.mp isLast
  have kept : Token.significant (others ++ [last]) = Token.significant others ++ [last] := by
    simp [Token.significant, Token.isTrivia, TokenKind.isTrivia, isString]
  have ends := areDeclarations.getLast? last (by rw [kept]; simp)
  simp [isString] at ends

/-- The tokens of two texts with a line break between them are those of the first text, and those
of the second where they then stand.
-/
theorem Token.beforeEnd_append_newline {a : String} {ds : List SchemaDoc.Declaration}
    (areDeclarations : CommentedDeclarations (Token.beforeEnd (tokenize a)) ds) (b : String)
    : ∃ lines,
        Token.beforeEnd (tokenize (a ++ "\n" ++ b))
        = Token.beforeEnd (tokenize a)
          ++ (Token.beforeEnd (tokenize b)).map (Token.shift (a.utf8ByteSize + 1) lines) := by
  obtain ⟨front, split, notEnd, isFront⟩ := Token.tokenize_split a
  obtain ⟨back, split', notEnd', isBack⟩ := Token.tokenize_split b
  rw [isFront] at areDeclarations
  obtain ⟨newline, lines, isNewline, joined⟩ :=
    tokenize_append_newline split areDeclarations.notString b
  let shifted := Token.shift (a.utf8ByteSize + 1) lines
  have whole : tokenize (a ++ "\n" ++ b)
      = (front ++ newline :: back.map shifted) ++ [shifted (.ending (.after .start b.toList))] := by
    rw [joined, split', List.map_append]
    simp [shifted]
  refine ⟨lines, ?_⟩
  rw [whole, isFront, isBack, Token.beforeEnd_append rfl]
  · have notKept : newline.isTrivia = true := by rw [Token.isTrivia, isNewline]; rfl
    rw [← Token.significant_map_shift]
    simp [Token.significant, notKept, shifted]
  · intro token isMember
    rcases List.mem_append.mp isMember with isMember | isMember
    · exact notEnd token isMember
    rcases List.mem_cons.mp isMember with rfl | isMember
    · simp [isNewline]
    · obtain ⟨original, isOriginal, rfl⟩ := List.mem_map.mp isMember
      exact notEnd' original isOriginal

-----------------------------------------------------------------------------------------
-- Schemas of two texts
-----------------------------------------------------------------------------------------

namespace Schema

variable {a b : String} {s₁ s₂ : Schema}

/-- Two schema texts with a line break between them make up one, if there is no comment at the end
of the first.
-/
theorem ofText_append_newline (first : ofText false a = .ok s₁)
    (ends : EndsInNoComment (Token.beforeEnd (tokenize a))) (second : ofText false b = .ok s₂)
    : ofText false (a ++ "\n" ++ b) = .ok (s₁ ++ s₂.shift (a.utf8ByteSize + 1)) := by
  obtain ⟨ds₁, areFront, rfl⟩ := ofText_eq_ok.mp first
  obtain ⟨ds₂, areBack, rfl⟩ := ofText_eq_ok.mp second
  obtain ⟨lines, whole⟩ := Token.beforeEnd_append_newline areFront b
  obtain ⟨ds, areMoved, moved⟩ := areBack.shift (a.utf8ByteSize + 1) lines
  refine ofText_eq_ok.mpr ⟨ds₁ ++ ds, ?_, ?_⟩
  · rw [whole]
    exact areFront.append ends areMoved
  · rw [ofDeclarations_append, moved]

/-- A text of one block that is passed over declares nothing. -/
theorem ofText_ignoredBlock {block : String}
    (isIgnored : IgnoredBlock (Token.beforeEnd (tokenize block)))
    : ofText false block = .ok .empty := by
  have nothing : CommentedDeclarations [] [] := .done (by simp)
  have areDeclarations := @CommentedDeclarations.declaration [] _ _ _ _ (by simp)
    (.ignored isIgnored) nothing
  rw [List.nil_append, List.append_nil] at areDeclarations
  exact ofText_eq_ok.mpr ⟨_, areDeclarations, rfl⟩

theorem append_shift_empty (schema : Schema) (bytes : Nat)
    : schema ++ Schema.empty.shift bytes = schema :=
  congrArg₂ mk (List.append_nil _) (List.append_nil _)

/-- There is no comment at the end of a text with a block that is passed over at its end. -/
theorem endsInNoComment_append_block (first : ofText false a = .ok s₁) {block : String}
    (isIgnored : IgnoredBlock (Token.beforeEnd (tokenize block)))
    : EndsInNoComment (Token.beforeEnd (tokenize (a ++ "\n" ++ block))) := by
  obtain ⟨ds₁, areFront, -⟩ := ofText_eq_ok.mp first
  obtain ⟨lines, whole⟩ := Token.beforeEnd_append_newline areFront block
  obtain ⟨brace, isBrace, closes⟩ := (@CommentedDeclaration.ignored none _ isIgnored).getLast?
  intro last isLast
  rw [whole, List.getLast?_append, List.getLast?_map, isBrace, Option.map_some,
    Option.some_or] at isLast
  obtain rfl := Option.some.inj isLast
  simp [Token.shift, closes]

/-- Schema texts with a line break between them make up one, unless there is a comment at the end
of the first. What the second declares is moved behind the first, and nothing else is changed. So
a block that is passed over may stand between them.
-/
theorem ofText_compositional (first : ofText false a = .ok s₁) (second : ofText false b = .ok s₂)
    (ends : EndsInNoComment (Token.beforeEnd (tokenize a)))
    : ofText false (a ++ "\n" ++ b) = .ok (s₁ ++ s₂.shift (a.utf8ByteSize + 1))
      ∧ ∀ block,
          IgnoredBlock (Token.beforeEnd (tokenize block))
          → ofText false (a ++ "\n" ++ block ++ "\n" ++ b)
            = .ok (s₁ ++ s₂.shift ((a ++ "\n" ++ block).utf8ByteSize + 1)) := by
  refine ⟨ofText_append_newline first ends second, fun block isIgnored => ?_⟩
  have behind := ofText_append_newline first ends (ofText_ignoredBlock isIgnored)
  rw [append_shift_empty] at behind
  exact ofText_append_newline behind (endsInNoComment_append_block first isIgnored) second

/-- A model and an enum, with a block between them that has braces in it. -/
theorem ofText_compositional_role
    : let a := "/// who\nmodel User \x7b role Role \x7d // people"
      let b := "enum Role \x7b A \x7d /// nobody"
      let block := "datasource db \x7b url \x7b at \x7d \x7d"
      let user : Model :=
        ⟨⟨"User", ⟨14, 18⟩⟩,
          [⟨⟨"role", ⟨21, 25⟩⟩, .object "Role", false, false, [], none, ⟨21, 30⟩⟩], [],
          some ⟨"who", ⟨0, 7⟩⟩, ⟨8, 32⟩⟩
      let role : Enum :=
        ⟨⟨"Role", ⟨5, 9⟩⟩, [⟨⟨"A", ⟨12, 13⟩⟩, [], none, ⟨12, 13⟩⟩], [], none, ⟨0, 15⟩⟩
      ofText false (a ++ "\n" ++ b) = .ok ⟨[user], [role.mapSpan (Span.shift 43)]⟩
        ∧ ofText false (a ++ "\n" ++ block ++ "\n" ++ b)
          = .ok ⟨[user], [role.mapSpan (Span.shift 72)]⟩ := by
  intro a b block user role
  have first : ofText false a = .ok ⟨[user], []⟩ := by decide +kernel
  have second : ofText false b = .ok ⟨[], [role]⟩ := by decide +kernel
  have ends : EndsInNoComment (Token.beforeEnd (tokenize a)) := by
    unfold EndsInNoComment
    decide +kernel
  have isIgnored : IgnoredBlock (Token.beforeEnd (tokenize block)) := by
    let brace : Token := ⟨.rightBrace, "\x7d", 1, 28, ⟨27, 28⟩⟩
    have read : Production.ignoredBlock .datasource ⟨default, Token.beforeEnd (tokenize block)⟩
        = .ok ((), ⟨brace, []⟩) := by
      decide +kernel
    obtain ⟨tokens, passes, isIgnored⟩ := Production.sound_ignoredBlock (Or.inl rfl) read
    have whole : Token.beforeEnd (tokenize block) = tokens ++ [] := passes.rest
    rwa [whole, List.append_nil]
  obtain ⟨together, around⟩ := ofText_compositional first second ends
  exact ⟨together, around block isIgnored⟩

end Schema

end SchemaDoc
