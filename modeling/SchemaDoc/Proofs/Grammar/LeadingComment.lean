import SchemaDoc.Proofs.Grammar.TrailingDeclaration

/-! What the first comment in front of declarations documents.
It documents the declaration behind its run of comments, if that is a model or an enum. Then
every change of its text shows there.
-/

namespace SchemaDoc

-----------------------------------------------------------------------------------------
-- Declarations under other documentation
-----------------------------------------------------------------------------------------

namespace Declaration

/-- A declaration with its documentation replaced. An ignored block has none. -/
def document (documentation : Option Documentation) : Declaration → Declaration
  | model m => model { m with documentation }
  | enum e => enum { e with documentation }
  | ignored => ignored

/-- Where the first token of a model or an enum begins. -/
def start? : Declaration → Option Nat
  | model m => some m.span.start
  | enum e => some e.span.start
  | ignored => none

end Declaration

/-- A text that is longer at its end begins another documentation. -/
theorem Documentation.ofTokens?_ne (comment : Token) (comments : List Token)
    : Documentation.ofTokens? ({ comment with text := comment.text ++ "x" } :: comments)
      ≠ Documentation.ofTokens? (comment :: comments) := by
  intro same
  have sameText := congrArg (fun documentation => documentation.map fun d => d.text.length) same
  cases comments <;> simp [Documentation.ofTokens?] at sameText

namespace Grammar

variable {comment : Token} {tokens back : List Token} {place : Nat}
  {documentation : Option Documentation} {d : SchemaDoc.Declaration}
  {ds : List SchemaDoc.Declaration}

/-- Tokens that a comment in front of them documents: behind further comments there is the
keyword of a model or an enum.
-/
def AreDocumented (tokens : List Token) : Prop :=
  ∃ keyword,
    tokens.find? (·.kind ≠ .docComment) = some keyword
    ∧ (keyword.kind = .model ∨ keyword.kind = .enum)

theorem not_areDocumented_of_areComments
    (areComments : ∀ c ∈ tokens, c.kind = .docComment)
    : ¬AreDocumented tokens := by
  rintro ⟨keyword, found, -⟩
  have notComment := List.find?_some found
  have isMember := List.mem_of_find?_eq_some found
  simp [areComments keyword isMember] at notComment

/-- Behind comments the next token tells whether they document something. -/
theorem areDocumented_append_cons_iff {comments : List Token} {first : Token}
    (areComments : ∀ c ∈ comments, c.kind = .docComment) (notComment : first.kind ≠ .docComment)
    : AreDocumented (comments ++ first :: back) ↔ first.kind = .model ∨ first.kind = .enum := by
  have found : (comments ++ first :: back).find? (·.kind ≠ .docComment) = some first := by
    rw [find?_append_of_areComments areComments]
    simp [notComment]
  constructor
  · rintro ⟨keyword, found', isKeyword⟩
    obtain rfl := Option.some.inj (found.symm.trans found')
    exact isKeyword
  · exact fun isKeyword => ⟨first, found, isKeyword⟩

theorem CommentedDeclaration.document
    (isDeclaration : CommentedDeclaration documentation tokens d)
    (documentation' : Option Documentation)
    : CommentedDeclaration documentation' tokens (d.document documentation') := by
  cases isDeclaration with
  | model isBlock => exact .model isBlock
  | enum isBlock => exact .enum isBlock
  | ignored isIgnored => exact .ignored isIgnored

theorem CommentedDeclaration.eq_document
    (isDeclaration : CommentedDeclaration documentation tokens d)
    : d = d.document documentation := by
  cases isDeclaration <;> rfl

/-- A block begins where one of its tokens does. -/
theorem CommentedBlock.le_start {α : Type} {member : Production.Member α}
    {keyword : TokenKind} {name : Ident} {entries : List (SchemaDoc.Entry α)} {span : Span}
    (isBlock : CommentedBlock keyword member tokens (name, entries, span))
    (behind : ∀ token ∈ tokens, place ≤ token.span.start)
    : place ≤ span.start := by
  obtain @⟨first, _, _, _, last, _, _, _, _, _, _⟩ := isBlock
  have first_le := behind first (by simp)
  have last_le := behind last (by simp)
  exact Nat.le_min.mpr ⟨first_le, last_le⟩

/-- The keyword of a declaration tells whether it can be documented. -/
theorem CommentedDeclaration.start?_cases
    (isDeclaration : CommentedDeclaration documentation tokens d)
    (behind : ∀ token ∈ tokens, place ≤ token.span.start)
    : ∃ first more,
        tokens = first :: more
        ∧ first.kind ≠ .docComment
        ∧ ((first.kind = .model ∨ first.kind = .enum)
            ∧ (∃ start, d.start? = some start ∧ place ≤ start)
          ∨ ¬(first.kind = .model ∨ first.kind = .enum) ∧ d = .ignored) := by
  cases isDeclaration with
  | model isBlock =>
      have starts := isBlock.le_start behind
      obtain ⟨isKeyword, _⟩ := isBlock
      exact ⟨_, _, rfl, by simp [isKeyword], Or.inl ⟨Or.inl isKeyword, _, rfl, starts⟩⟩
  | enum isBlock =>
      have starts := isBlock.le_start behind
      obtain ⟨isKeyword, _⟩ := isBlock
      exact ⟨_, _, rfl, by simp [isKeyword], Or.inl ⟨Or.inr isKeyword, _, rfl, starts⟩⟩
  | ignored isIgnored =>
      obtain ⟨isKeyword, _, _⟩ := isIgnored
      rcases isKeyword with isKeyword | isKeyword
      · exact ⟨_, _, rfl, by simp [isKeyword], Or.inr ⟨by simp [isKeyword], rfl⟩⟩
      · exact ⟨_, _, rfl, by simp [isKeyword], Or.inr ⟨by simp [isKeyword], rfl⟩⟩

/-- What a comment in front of declarations does to them: it documents the first one, if that
can be documented, or its text is not in them.
-/
theorem CommentedDeclarations.of_comment (isComment : comment.kind = .docComment)
    (areDeclarations : CommentedDeclarations (comment :: back) ds)
    (behind : ∀ token ∈ back, place ≤ token.span.start)
    : (AreDocumented back
        ∧ ∃ (comments : List Token) (d : SchemaDoc.Declaration) (start : Nat)
            (ds' : List SchemaDoc.Declaration),
            ds = d.document (Documentation.ofTokens? (comment :: comments)) :: ds'
            ∧ d.start? = some start
            ∧ place ≤ start
            ∧ ∀ text,
                CommentedDeclarations ({ comment with text } :: back)
                  (d.document (Documentation.ofTokens? ({ comment with text } :: comments))
                    :: ds'))
      ∨ (¬AreDocumented back
        ∧ ∀ text, CommentedDeclarations ({ comment with text } :: back) ds) := by
  generalize whole : comment :: back = all at areDeclarations
  cases areDeclarations with
  | done areComments =>
      subst whole
      exact Or.inr
        ⟨not_areDocumented_of_areComments (List.forall_mem_cons.mp areComments).2,
          fun text => .done (areComments_retext areComments text)⟩
  | @declaration comments tokens rest d ds areComments isDeclaration isBehind =>
      cases comments with
      | nil =>
          obtain ⟨first, more, rfl, notComment⟩ := isDeclaration.uncons_ne
          obtain ⟨rfl, -⟩ := List.cons.inj whole
          exact absurd isComment notComment
      | cons c comments =>
          obtain ⟨rfl, rfl⟩ : comment = c ∧ back = comments ++ (tokens ++ rest) :=
            List.cons.inj whole
          obtain ⟨first, more, rfl, notComment, kinds⟩ :=
            isDeclaration.start?_cases fun token isMember => behind token (by simp [isMember])
          have documented
              : AreDocumented (comments ++ (first :: more ++ rest))
                ↔ first.kind = .model ∨ first.kind = .enum :=
            areDocumented_append_cons_iff (List.forall_mem_cons.mp areComments).2 notComment
          rcases kinds with ⟨isKeyword, start, starts, isBehindPlace⟩ | ⟨notKeyword, rfl⟩
          · refine Or.inl ⟨documented.mpr isKeyword, comments, d, start, ds, ?_, starts,
              isBehindPlace, fun text => ?_⟩
            · rw [← isDeclaration.eq_document]
            · exact .declaration (areComments_retext areComments text)
                (isDeclaration.document _) isBehind
          · refine Or.inr ⟨mt documented.mp notKeyword, fun text => ?_⟩
            exact .declaration (areComments_retext areComments text)
              (isDeclaration.document _) isBehind

-----------------------------------------------------------------------------------------
-- Documentation of a schema
-----------------------------------------------------------------------------------------

theorem Documented.behind_append (place : Nat) (documented documented' : List Documented)
    : Documented.behind place (documented ++ documented')
      = Documented.behind place documented ++ Documented.behind place documented' :=
  List.filter_append ..

/-- A model or an enum behind a place shows its documentation there. -/
theorem documentation_eq_of_behind {start : Nat} (starts : d.start? = some start)
    (isBehind : place ≤ start) (ds₁ ds₂ : List SchemaDoc.Declaration)
    {documentation' : Option Documentation}
    (same
      : Documented.behind place
          (SchemaDoc.Schema.ofDeclarations (ds₁ ++ d.document documentation :: ds₂)).documented
        = Documented.behind place
          (SchemaDoc.Schema.ofDeclarations (ds₁ ++ d.document documentation' :: ds₂)).documented)
    : documentation = documentation' := by
  cases d with
  | model m =>
      obtain rfl : m.span.start = start := Option.some.inj starts
      simp only [SchemaDoc.Schema.documented, SchemaDoc.Schema.ofDeclarations,
        List.filterMap_append, List.filterMap_cons, Declaration.document, Declaration.model?,
        Declaration.enum?, Documented.behind, List.filter_append] at same
      simpa [Model.documented, isBehind] using same
  | enum e =>
      obtain rfl : e.span.start = start := Option.some.inj starts
      simp only [SchemaDoc.Schema.documented, SchemaDoc.Schema.ofDeclarations,
        List.filterMap_append, List.filterMap_cons, Declaration.document, Declaration.model?,
        Declaration.enum?, Documented.behind, List.filter_append] at same
      simpa [Enum.documented, isBehind] using same
  | ignored => exact absurd starts (by simp [Declaration.start?])

/-- Declarations with the same documentation behind a place make up schemas that have it. -/
theorem behind_ofDeclarations {ds' : List SchemaDoc.Declaration}
    (same : List.Forall₂ (SameBehind place) ds ds')
    : Documented.behind place (SchemaDoc.Schema.ofDeclarations ds').documented
      = Documented.behind place (SchemaDoc.Schema.ofDeclarations ds).documented := by
  have parts
      : Documented.behind place ((ds'.filterMap Declaration.model?).flatMap Model.documented)
        = Documented.behind place ((ds.filterMap Declaration.model?).flatMap Model.documented)
      ∧ Documented.behind place ((ds'.filterMap Declaration.enum?).flatMap Enum.documented)
        = Documented.behind place ((ds.filterMap Declaration.enum?).flatMap Enum.documented) := by
    induction same with
    | nil => exact ⟨rfl, rfl⟩
    | cons head _ ih =>
        cases head with
        | model same =>
            refine ⟨?_, ih.2⟩
            simp only [List.filterMap_cons, Declaration.model?, List.flatMap_cons,
              Documented.behind_append, same, ih.1]
        | enum same =>
            refine ⟨ih.1, ?_⟩
            simp only [List.filterMap_cons, Declaration.enum?, List.flatMap_cons,
              Documented.behind_append, same, ih.2]
        | ignored => exact ih
  rw [SchemaDoc.Schema.documented, SchemaDoc.Schema.documented, Documented.behind_append,
    Documented.behind_append]
  exact congrArg₂ (· ++ ·) parts.1 parts.2

end Grammar

end SchemaDoc
