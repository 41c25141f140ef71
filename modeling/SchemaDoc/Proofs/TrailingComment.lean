import SchemaDoc.Proofs.Grammar.Concatenation
import SchemaDoc.Proofs.Grammar.LeadingComment
import SchemaDoc.Proofs.StrictReading
import SchemaDoc.Proofs.Token.Laid
import SchemaDoc.Proofs.Token.Lines

/-! What a comment behind a token on the same line documents.
A comment reaches what is behind it if some other text in its place changes the documentation
there. It does so in one case: behind the end of a declaration, in front of a model or an enum.
-/

namespace SchemaDoc

open Grammar
open String (utf8Len)

-----------------------------------------------------------------------------------------
-- Reaching
-----------------------------------------------------------------------------------------

/-- What documents everything that begins behind a place, if the tokens are a schema. -/
def Schema.documentedBehind? (place : Nat) (tokens : List Token) (size : Nat)
    : Option (List Documented) :=
  (Schema.ofTokens tokens size).toOption.map fun schema =>
    Documented.behind place schema.documented

/-- A comment between tokens has a part in the documentation of something that begins behind it:
another text in its place changes that documentation.
-/
def ReachesBehind (front : List Token) (comment : Token) (back : List Token) (size : Nat)
  : Prop :=
  ∃ text,
    Schema.documentedBehind? comment.span.stop (front ++ { comment with text } :: back) size
    ≠ Schema.documentedBehind? comment.span.stop (front ++ comment :: back) size

theorem Schema.documentedBehind?_eq {place : Nat} {tokens : List Token} {size : Nat}
    {ds : List SchemaDoc.Declaration}
    (areDeclarations : CommentedDeclarations (Token.beforeEnd tokens) ds)
    : Schema.documentedBehind? place tokens size
      = some (Documented.behind place (Schema.ofDeclarations ds).documented) := by
  have read := (@Schema.ofTokens_eq_ok _ size _).mpr ⟨ds, areDeclarations, rfl⟩
  rw [documentedBehind?, read]
  rfl

-----------------------------------------------------------------------------------------
-- Tokens in front of the end of the input
-----------------------------------------------------------------------------------------

theorem Token.beforeEnd_of_proper_append {tokens : List Token} {ending : Token}
    (areProper : ∀ token ∈ tokens, token.IsProper) (ends : ending.kind = .endOfInput)
    : Token.beforeEnd (tokens ++ [ending]) = tokens := by
  rw [Token.beforeEnd_append ends fun token isMember => (areProper token isMember).2]
  exact List.filter_eq_self.mpr fun token isMember => by simp [(areProper token isMember).1]

theorem Token.beforeEnd_significant (tokens : List Token)
    : Token.beforeEnd (Token.significant tokens) = Token.beforeEnd tokens := by
  simp [Token.beforeEnd, Token.significant]

/-- A text that is a schema derives declarations, in either way of reading it. -/
theorem Schema.exists_declarations_of_ofText {strict : Bool} {text : String} {schema : Schema}
    (parses : Schema.ofText strict text = .ok schema)
    : ∃ ds, CommentedDeclarations (Token.beforeEnd (tokenize text)) ds := by
  obtain ⟨ds, areDeclarations, -⟩ :=
    Schema.ofText_eq_ok.mp (Schema.ofText_permissive_of_ok parses)
  exact ⟨ds, areDeclarations⟩

/-- The end of the input documents nothing. -/
theorem areDocumented_append_iff {back : List Token} {ending : Token}
    (ends : ending.kind = .endOfInput)
    : AreDocumented (back ++ [ending]) ↔ AreDocumented back := by
  unfold AreDocumented
  rw [List.find?_append]
  cases found : back.find? (·.kind ≠ .docComment) with
  | some keyword => simp
  | none => simp [ends]

-----------------------------------------------------------------------------------------
-- Tokens on one line
-----------------------------------------------------------------------------------------

/-- Two tokens begin on one line of a text: no line ends between where they begin. -/
def Token.OnOneLine (text : String) (a b : Token) : Prop :=
  ∃ before between after,
    text.toList = before ++ (between ++ after)
    ∧ a.span.start = utf8Len before
    ∧ b.span.start = utf8Len (before ++ between)
    ∧ '\n' ∉ between

namespace Apart

variable {text : String} {before between : List Char} {a b : Token}

/-- Offsets tell what is between two tokens, so no line ends there if they are on one line. -/
theorem notMem_of_onOneLine (apart : Apart .start text.toList before between a b)
    (oneLine : a.OnOneLine text b)
    : '\n' ∉ between := by
  obtain ⟨before', between', after', split', start, stop, noBreak⟩ := oneLine
  obtain ⟨after, split⟩ := apart.split
  obtain ⟨first, second⟩ := apart.positions
  have sameStart := start.symm.trans (congrArg Position.offset first)
  have sameStop := stop.symm.trans (congrArg Position.offset second)
  obtain rfl : before' = before :=
    prefix_eq_of_utf8Len_eq ⟨_, split'.symm⟩ ⟨_, split.symm⟩ sameStart
  rw [← List.append_assoc] at split split'
  have same : before' ++ between' = before' ++ between :=
    prefix_eq_of_utf8Len_eq ⟨_, split'.symm⟩ ⟨_, split.symm⟩ sameStop
  rwa [← List.append_cancel_left same]

theorem line_eq (apart : Apart .start text.toList before between a b) (noBreak : '\n' ∉ between)
    : b.line = a.line := by
  obtain ⟨first, second⟩ := apart.positions
  have sameLine : (Counts.behind (before ++ between)).line = (Counts.behind before).line := by
    simp only [Counts.behind, List.count_append, List.count_eq_zero.mpr noBreak, Nat.add_zero]
  calc
    b.line = .ofNat (Counts.behind (before ++ between)).line := congrArg Position.line second
    _ = .ofNat (Counts.behind before).line := by rw [sameLine]
    _ = a.line := (congrArg Position.line first).symm

end Apart

/-- On one line tokens say so, and there is no comment in front of a comment: it would have taken
all that is left of the line.
-/
theorem Token.OnOneLine.line_eq {text : String} {front back : List Token} {a b : Token}
    (oneLine : a.OnOneLine text b)
    (split : Token.significant (tokenize text) = front ++ a :: b :: back)
    : b.line = a.line ∧ (b.kind = .docComment → a.kind ≠ .docComment) := by
  have allApart := (scans_tokenize text).apart.filter fun token => !token.isTrivia
  rw [← Token.significant, split] at allApart
  obtain ⟨-, fromFirst, -⟩ := List.pairwise_append.mp allApart
  obtain ⟨before, between, apart⟩ := (List.pairwise_cons.mp fromFirst).1 b List.mem_cons_self
  have noBreak := apart.notMem_of_onOneLine oneLine
  exact ⟨apart.line_eq noBreak, fun isComment isComment' =>
    noBreak (apart.breaks isComment' isComment)⟩

-----------------------------------------------------------------------------------------
-- A comment among the tokens of a text
-----------------------------------------------------------------------------------------

/-- How a comment stands among the tokens of a text in front of its end. -/
structure Stands (front : List Token) (comment : Token) (back : List Token) : Prop where
  frontProper : ∀ token ∈ front, token.IsProper
  commentProper : comment.IsProper
  backProper : ∀ token ∈ back, token.IsProper
  longer : comment.span.start < comment.span.stop
  inFront : ∀ token ∈ front, token.span.start < token.span.stop
    ∧ token.span.stop ≤ comment.span.start
  behind : ∀ token ∈ back, comment.span.stop ≤ token.span.start

theorem stands_of_tokenize {text : String} {front back : List Token} {comment : Token}
    (split : Token.significant (tokenize text) = front ++ comment :: back)
    (notEnd : comment.kind ≠ .endOfInput)
    : ∃ back' ending,
        back = back' ++ [ending] ∧ ending.kind = .endOfInput ∧ Stands front comment back' := by
  have scans := scans_tokenize text
  obtain ⟨ending, same, ends, areProper⟩ := Token.significant_tokenize text
  generalize Token.beforeEnd (tokenize text) = all at same areProper
  rcases List.eq_nil_or_concat back with rfl | ⟨back', last, rfl⟩
  · rw [split] at same
    obtain ⟨-, isEnding⟩ := List.append_inj' same rfl
    obtain rfl := List.singleton_inj.mp isEnding
    exact absurd ends notEnd
  · have ordered := scans.ordered.filter fun token => !token.isTrivia
    rw [← Token.significant, split] at ordered
    rw [split, List.concat_eq_append, ← List.cons_append, ← List.append_assoc] at same
    obtain ⟨rfl, isEnding⟩ := List.append_inj' same rfl
    obtain rfl := List.singleton_inj.mp isEnding
    rw [List.concat_eq_append] at ordered
    obtain ⟨-, fromComment, across⟩ := List.pairwise_append.mp ordered
    have isProper := areProper comment (by simp)
    exact ⟨back', last, List.concat_eq_append .., ends,
      { frontProper := fun token isMember => (areProper token (by simp [isMember])).1
        commentProper := isProper.1
        backProper := fun token isMember => (areProper token (by simp [isMember])).1
        longer := isProper.2
        inFront := fun token isMember =>
          ⟨(areProper token (by simp [isMember])).2, across token isMember comment (by simp)⟩
        behind := fun token isMember =>
          (List.pairwise_cons.mp fromComment).1 token (by simp [isMember]) }⟩

namespace Stands

variable {front back : List Token} {comment previous ending : Token}

theorem trails (stands : Stands (front ++ [previous]) comment back)
    (isComment : comment.kind = .docComment) (sameLine : comment.line = previous.line)
    (notComment : previous.kind ≠ .docComment)
    : Trails previous (front ++ [previous]) comment back comment.span.stop where
  isComment := isComment
  notFront isMember := by
    have inFront := (stands.inFront comment isMember).2
    have longer := stands.longer
    omega
  notBack isMember := by
    have behind := stands.behind comment isMember
    have longer := stands.longer
    omega
  notBehindComment := by
    rwa [List.getLast?_concat, Option.getD_some]
  sameLine := by rw [List.getLast?_concat, Option.getD_some, sameLine]
  inFront token isMember := by
    have inFront := stands.inFront token isMember
    have longer := stands.longer
    omega

/-- Under any text, the comment is read with what stands around it. -/
theorem beforeEnd_retext (stands : Stands front comment back)
    (ends : ending.kind = .endOfInput) (text : String)
    : Token.beforeEnd (front ++ { comment with text } :: (back ++ [ending]))
      = front ++ { comment with text } :: back := by
  rw [← List.cons_append, ← List.append_assoc]
  refine Token.beforeEnd_of_proper_append (fun token isMember => ?_) ends
  rcases List.mem_append.mp isMember with isMember | isMember
  · exact stands.frontProper token isMember
  · rcases List.mem_cons.mp isMember with rfl | isMember
    · exact stands.commentProper
    · exact stands.backProper token isMember

end Stands

-----------------------------------------------------------------------------------------
-- The one way out
-----------------------------------------------------------------------------------------

theorem Stands.reaches_iff {front back : List Token} {comment previous ending : Token}
    {ds : List SchemaDoc.Declaration} (stands : Stands front comment back)
    (trails : Trails previous front comment back comment.span.stop)
    (ends : ending.kind = .endOfInput)
    (areDeclarations : CommentedDeclarations (front ++ comment :: back) ds) (size : Nat)
    : ReachesBehind front comment (back ++ [ending]) size
      ↔ (∃ schema, Schema.ofTokens front size = .ok schema)
        ∧ AreDocumented (back ++ [ending]) := by
  have closed : (∃ schema, Schema.ofTokens front size = .ok schema)
      ↔ ∃ ds₁, CommentedDeclarations front ds₁ := by
    simp only [Schema.ofTokens_eq_ok, Token.beforeEnd_of_proper stands.frontProper]
    constructor
    · rintro ⟨_, ds₁, areFront, _⟩
      exact ⟨ds₁, areFront⟩
    · rintro ⟨ds₁, areFront⟩
      exact ⟨_, ds₁, areFront, rfl⟩
  have documented (text : String) {ds' : List SchemaDoc.Declaration}
      (areDeclarations' : CommentedDeclarations (front ++ { comment with text } :: back) ds')
      : Schema.documentedBehind? comment.span.stop
          (front ++ { comment with text } :: (back ++ [ending])) size
        = some (Documented.behind comment.span.stop (Schema.ofDeclarations ds').documented) := by
    refine Schema.documentedBehind?_eq ?_
    rwa [stands.beforeEnd_retext ends]
  have before := documented comment.text areDeclarations
  rw [closed, areDocumented_append_iff ends]
  by_cases isClosed : ∃ ds₁, CommentedDeclarations front ds₁
  · obtain ⟨ds₁, areFront⟩ := isClosed
    obtain ⟨ds₂, rfl, areBack⟩ := areFront.split_behind trails.frontEnds areDeclarations
    rcases areBack.of_comment trails.isComment stands.behind with
      ⟨areDocumented, comments, d, start, ds', rfl, starts, isBehind, retexted⟩
        | ⟨notDocumented, retexted⟩
    · refine iff_of_true ⟨comment.text ++ "x", fun same => ?_⟩ ⟨⟨ds₁, areFront⟩, areDocumented⟩
      have after := documented _ (areFront.append trails.frontEnds (retexted (comment.text ++ "x")))
      rw [after, before] at same
      exact Documentation.ofTokens?_ne comment comments
        (documentation_eq_of_behind starts isBehind ds₁ ds' (Option.some.inj same))
    · refine iff_of_false ?_ fun holds => notDocumented holds.2
      rintro ⟨text, differs⟩
      have after := documented text (areFront.append trails.frontEnds (retexted text))
      exact differs (after.trans before.symm)
  · refine iff_of_false ?_ fun holds => isClosed holds.1
    rintro ⟨text, differs⟩
    rcases areDeclarations.retexted text trails rfl with areFront | ⟨ds', areDeclarations', same⟩
    · exact isClosed areFront
    · have after := documented text areDeclarations'
      rw [behind_ofDeclarations same] at after
      exact differs (after.trans before.symm)

/-- A trailing comment reaches what is behind it exactly where the tokens in front of it are
whole declarations and those behind it begin with a model or an enum, comments aside. Elsewhere
it documents nothing behind it.
-/
theorem reachesBehind_iff (strict : Bool) (text : String) (schema : Schema)
    (front back : List Token) (previous comment : Token)
    (parses : Schema.ofText strict text = .ok schema)
    (split : Token.significant (tokenize text) = front ++ previous :: comment :: back)
    (isComment : comment.kind = .docComment) (oneLine : previous.OnOneLine text comment)
    : ReachesBehind (front ++ [previous]) comment back text.utf8ByteSize
      ↔ (∃ schema', Schema.ofTokens (front ++ [previous]) text.utf8ByteSize = .ok schema')
        ∧ AreDocumented back := by
  have split' : Token.significant (tokenize text) = (front ++ [previous]) ++ comment :: back := by
    rw [split, List.append_assoc, List.singleton_append]
  obtain ⟨back, ending, rfl, ends, stands⟩ := stands_of_tokenize split' (by simp [isComment])
  obtain ⟨sameLine, notComment⟩ := oneLine.line_eq split
  have trails := stands.trails isComment sameLine (notComment isComment)
  obtain ⟨ds, areDeclarations⟩ := Schema.exists_declarations_of_ofText parses
  rw [← Token.beforeEnd_significant, split', stands.beforeEnd_retext ends comment.text]
    at areDeclarations
  exact stands.reaches_iff trails ends areDeclarations _

/-- The comment behind the brace that closes a model reaches the next model. -/
theorem reachesBehind_of_closing_brace
    : let text := "model A {} /// x\nmodel B {}"
      let tokens := Token.significant (tokenize text)
      ReachesBehind (tokens.take 4) ⟨.docComment, "x", 1, 12, ⟨11, 16⟩⟩ (tokens.drop 5)
        text.utf8ByteSize := by
  intro text tokens
  let a : Model := ⟨⟨"A", ⟨6, 7⟩⟩, [], [], none, ⟨0, 10⟩⟩
  let b : Model := ⟨⟨"B", ⟨23, 24⟩⟩, [], [], some ⟨"x", ⟨11, 16⟩⟩, ⟨17, 27⟩⟩
  let brace : Token := ⟨.rightBrace, "\x7d", 1, 10, ⟨9, 10⟩⟩
  have parses : Schema.ofText false text = .ok ⟨[a, b], []⟩ := by decide +kernel
  have closed : Schema.ofTokens (tokens.take 3 ++ [brace]) text.utf8ByteSize = .ok ⟨[a], []⟩ := by
    decide +kernel
  have isDocumented : AreDocumented (tokens.drop 5) :=
    ⟨⟨.model, "model", 2, 1, ⟨17, 22⟩⟩, by decide +kernel, Or.inl rfl⟩
  have sameFront : tokens.take 4 = tokens.take 3 ++ [brace] := by decide +kernel
  have oneLine : brace.OnOneLine text ⟨.docComment, "x", 1, 12, ⟨11, 16⟩⟩ :=
    ⟨"model A \x7b".toList, "\x7d ".toList, "/// x\nmodel B \x7b\x7d".toList, by decide +kernel⟩
  rw [sameFront]
  exact (reachesBehind_iff false text ⟨[a, b], []⟩ (tokens.take 3) (tokens.drop 5) brace
    ⟨.docComment, "x", 1, 12, ⟨11, 16⟩⟩ parses (by decide +kernel) rfl oneLine).mpr
    ⟨⟨_, closed⟩, isDocumented⟩

/-- There the comment documents the second model, though it stands on the line of the first. -/
theorem documentation_behind_closing_brace
    : let text := "model A {} /// x\nmodel B {}"
      ((Token.significant (tokenize text)).map fun token => (token.kind, token.line)).take 6
          = [(.model, 1), (.identifier, 1), (.leftBrace, 1), (.rightBrace, 1), (.docComment, 1),
            (.model, 2)]
        ∧ (Schema.ofText false text).toOption.map (fun schema =>
            schema.models.map fun m => (m.name.name, m.documentation.map Documentation.text))
          = some [("A", none), ("B", some "x")] := by
  decide +kernel

end SchemaDoc
