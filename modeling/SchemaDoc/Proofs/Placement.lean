import SchemaDoc.Proofs.CorrectPrefix
import SchemaDoc.Proofs.Grammar.Placed
import SchemaDoc.Proofs.StrictReading

/-! Where the declarations of a schema and the errors of a reading stand in the text.
Every place that is kept is a range of whole characters. What is declared inside something else
stands inside it, and no two things at the top level overlap.
-/

namespace SchemaDoc

open Grammar

-----------------------------------------------------------------------------------------
-- Schemas
-----------------------------------------------------------------------------------------

/-- Two ranges that share no byte. -/
def Span.IsApart (left right : Span) : Prop :=
  left.stop ≤ right.start ∨ right.stop ≤ left.start

/-- The models and enums of a schema stand apart from each other, each placed in the text. -/
structure Schema.IsPlaced (text : String) (schema : Schema) : Prop where
  apart : (schema.models.map Model.span ++ schema.enums.map Enum.span).Pairwise Span.IsApart
  models : ∀ model ∈ schema.models, model.IsPlaced text
  enums : ∀ enum ∈ schema.enums, enum.IsPlaced text

/-- Models and enums are all declarations that are not passed over. -/
theorem spans_perm (ds : List Declaration)
    : (ds.flatMap fun d => (declarationSpan? d).toList).Perm
        ((ds.filterMap Declaration.model?).map Model.span
          ++ (ds.filterMap Declaration.enum?).map Enum.span) := by
  induction ds with
  | nil => exact .nil
  | cons d ds ih =>
      cases d with
      | model model => exact ih.cons model.span
      | enum enum => exact (ih.cons enum.span).trans List.perm_middle.symm
      | ignored => exact ih

theorem Schema.isPlaced_ofDeclarations {text : String} {ds : List Declaration}
    (hold : ∀ d ∈ ds, DeclarationHolds text d) {low high : Nat}
    (inOrder : Span.InOrder low (ds.flatMap fun d => (declarationSpan? d).toList) high)
    : (Schema.ofDeclarations ds).IsPlaced text where
  apart := by
    have ordered := inOrder.pairwise.imp fun {a b} before =>
      (Or.inl before : Span.IsApart a b)
    exact ((spans_perm ds).pairwise_iff Or.symm).mp ordered
  models _ isModel := hold _ (Declaration.mem_models_iff.mp isModel)
  enums _ isEnum := hold _ (Declaration.mem_enums_iff.mp isEnum)

theorem Schema.isPlaced_of_ofText {strict : Bool} {text : String} {schema : Schema}
    (read : ofText strict text = .ok schema)
    : schema.IsPlaced text := by
  obtain ⟨ds, areDeclarations, rfl⟩ := ofText_eq_ok.mp (ofText_permissive_of_ok read)
  obtain ⟨hold, inOrder⟩ := places_declarations text areDeclarations (laid_beforeEnd text)
  exact isPlaced_ofDeclarations hold inOrder

-----------------------------------------------------------------------------------------
-- Errors
-----------------------------------------------------------------------------------------

/-- The range that an error labels. -/
def SourceError.span : SourceError → Span
  | unknownCharacter skipped =>
      ⟨skipped.position.offset, skipped.position.offset + skipped.character.utf8Size⟩
  | malformed error => error.span

theorem Token.isIn_of_mem_ended {text : String} {token : Token}
    (isMember : token ∈ Token.ended (tokenize text) text.utf8ByteSize)
    : token.span.IsIn text := by
  rcases Token.mem_ended isMember with isSignificant | rfl
  · exact isIn_of_mem_tokenize (List.mem_filter.mp isSignificant).1
  · have atEnd : IsBoundary text text.utf8ByteSize :=
      ⟨text.toList, [], (List.append_nil _).symm, by
        rw [← String.utf8ByteSize_ofList, String.ofList_toList]⟩
    exact ⟨Nat.le_refl _, Nat.le_refl _, atEnd, atEnd⟩

theorem Schema.span_isIn_of_malformed {text : String} {error : SyntaxError}
    (failed : ofTokens (tokenize text) text.utf8ByteSize = .error error)
    : error.span.IsIn text := by
  obtain ⟨i, blames⟩ := exists_blames failed
  obtain ⟨token, stands, isAt⟩ := blames.located
  rw [isAt.span]
  exact Token.isIn_of_mem_ended (List.mem_of_getElem? stands)

theorem FirstSkipped.span_isIn {text : String} {skipped : Skipped}
    (isFirst : FirstSkipped text skipped)
    : (SourceError.unknownCharacter skipped).span.IsIn text := by
  obtain ⟨before, ⟨⟨after, split⟩, -, -⟩, place, -⟩ := isFirst
  have offset : skipped.position.offset = String.utf8Len before := by
    rw [place]
    rfl
  have stop : IsBoundary text (SourceError.unknownCharacter skipped).span.stop := by
    refine ⟨before ++ [skipped.character], after, by simp [split], ?_⟩
    simp [SourceError.span, offset, String.utf8Len_append]
  exact
    { ordered := Nat.le_add_right _ _
      inside := stop.le_size
      start := ⟨before, skipped.character :: after, split, offset⟩
      stop := stop }

theorem Schema.span_isIn_of_error {strict : Bool} {text : String} {error : SourceError}
    (failed : ofText strict text = .error error)
    : error.span.IsIn text := by
  rcases ofText_error_cases failed with ⟨error, rfl, malformed⟩ | ⟨skipped, rfl, isFirst⟩
  · exact span_isIn_of_malformed malformed
  · exact isFirst.span_isIn

/-- Places are valid and nested. In a schema that a text is read as, strictly or not, every range
is one of whole characters of the text, every name of a declaration is what stands at its place,
and what is declared inside something stands inside it, in order. An error of either reading
labels a range of the text, so its length does not underflow.
-/
theorem Schema.places_of_ofText (text : String)
    : (∀ strict schema, ofText strict text = .ok schema → schema.IsPlaced text)
      ∧ ∀ strict error,
          ofText strict text = .error error
          → error.span.IsIn text
            ∧ error.span.start + error.span.length = error.span.stop := by
  refine ⟨fun _ _ read => isPlaced_of_ofText read, fun _ _ failed => ?_⟩
  have isIn := span_isIn_of_error failed
  exact ⟨isIn, Nat.add_sub_of_le isIn.ordered⟩

/-- A model behind an enum and a letter of two bytes, and the label of a brace behind another
such letter.
-/
theorem Schema.places_of_ofText_post
    : let text := "enum Kind { draft } /// né\nmodel Post { id Int @default(kind: draft) }"
      let error : SyntaxError :=
        ⟨.unexpected .declaration (some ⟨.rightBrace, "\x7d", 1, 3, ⟨3, 4⟩⟩), 1, 3, ⟨3, 4⟩⟩
      (∃ schema,
        ofText true text = .ok schema
        ∧ schema.IsPlaced text
        ∧ schema.models.map Model.span = [⟨28, 71⟩]
        ∧ schema.enums.map Enum.span = [⟨0, 19⟩])
      ∧ ofText false "é \x7d" = .error (.malformed error)
      ∧ error.span.IsIn "é \x7d" := by
  intro text error
  have reads : (ofText true text).toOption.map (fun schema =>
      (schema.models.map Model.span, schema.enums.map Enum.span))
        = some ([⟨28, 71⟩], [⟨0, 19⟩]) := by
    decide +kernel
  have failed : ofText false "é \x7d" = .error (.malformed error) := by decide +kernel
  refine ⟨?_, failed, ((places_of_ofText _).2 false _ failed).1⟩
  cases read : ofText true text with
  | error error => simp [read, Except.toOption] at reads
  | ok schema =>
      rw [read] at reads
      obtain ⟨models, enums⟩ := Prod.mk.inj (Option.some.inj reads)
      exact ⟨schema, rfl, (places_of_ofText text).1 true schema read, models, enums⟩

end SchemaDoc
