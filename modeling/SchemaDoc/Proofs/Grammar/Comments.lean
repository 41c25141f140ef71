import SchemaDoc.Proofs.Grammar.Members

/-! Derivations of token lists that hold documentation comments, and what they document.
Comments stand between entries and between declarations; each run of them is split by the line
of the token in front of it.
-/

namespace SchemaDoc.Grammar

open Production (Member)

theorem Entry.mem_members_iff {α : Type} {entries : List (SchemaDoc.Entry α)} {x : α}
    : x ∈ entries.filterMap Entry.member? ↔ .member x ∈ entries := by
  rw [List.mem_filterMap]
  constructor
  · rintro ⟨y | a, isEntry, isMember⟩
    · obtain rfl := Option.some.inj isMember
      exact isEntry
    · simp [Entry.member?] at isMember
  · exact fun isEntry => ⟨_, isEntry, rfl⟩

theorem Entry.mem_attributes_iff {α : Type} {entries : List (SchemaDoc.Entry α)}
    {a : SchemaDoc.Attribute}
    : a ∈ entries.filterMap Entry.attribute? ↔ .attribute a ∈ entries := by
  rw [List.mem_filterMap]
  constructor
  · rintro ⟨y | b, isEntry, isAttribute⟩
    · simp [Entry.attribute?] at isAttribute
    · obtain rfl := Option.some.inj isAttribute
      exact isEntry
  · exact fun isEntry => ⟨_, isEntry, rfl⟩

theorem Declaration.mem_models_iff {ds : List SchemaDoc.Declaration} {m : SchemaDoc.Model}
    : m ∈ ds.filterMap Declaration.model? ↔ .model m ∈ ds := by
  rw [List.mem_filterMap]
  constructor
  · rintro ⟨d, isDeclared, isModel⟩
    cases d with
    | model m' =>
        obtain rfl := Option.some.inj isModel
        exact isDeclared
    | enum e => simp [Declaration.model?] at isModel
    | ignored => simp [Declaration.model?] at isModel
  · exact fun isDeclared => ⟨_, isDeclared, rfl⟩

theorem Declaration.mem_enums_iff {ds : List SchemaDoc.Declaration} {e : SchemaDoc.Enum}
    : e ∈ ds.filterMap Declaration.enum? ↔ .enum e ∈ ds := by
  rw [List.mem_filterMap]
  constructor
  · rintro ⟨d, isDeclared, isEnum⟩
    cases d with
    | model m => simp [Declaration.enum?] at isEnum
    | enum e' =>
        obtain rfl := Option.some.inj isEnum
        exact isDeclared
    | ignored => simp [Declaration.enum?] at isEnum
  · exact fun isDeclared => ⟨_, isDeclared, rfl⟩

/-- The comment at the front of the tokens, if it stands on the line of the token before. -/
def trailing? (previous : Token) (tokens : List Token) : Option Token :=
  tokens.head?.filter fun token => token.kind = .docComment && token.line = previous.line

/-- A run of comments without the one that trails the token before. -/
def leading (previous : Token) (comments : List Token) : List Token :=
  comments.drop (trailing? previous comments).toList.length

/-- Tokens without a comment at their end. -/
def EndsInNoComment (tokens : List Token) : Prop :=
  ∀ last ∈ tokens.getLast?, last.kind ≠ .docComment

theorem EndsInNoComment.of_append {front back : List Token}
    (ends : EndsInNoComment (front ++ back))
    : EndsInNoComment back := by
  intro last isLast
  refine ends last ?_
  rw [Option.mem_def] at isLast ⊢
  rw [List.getLast?_append, isLast, Option.some_or]

theorem EndsInNoComment.eq_nil {tokens : List Token} (ends : EndsInNoComment tokens)
    (areComments : ∀ c ∈ tokens, c.kind = .docComment)
    : tokens = [] := by
  cases found : tokens.getLast? with
  | none => exact List.getLast?_eq_none_iff.mp found
  | some last => exact absurd (areComments last (List.mem_of_getLast? found)) (ends last found)

/-- Behind a run of comments the first token is found. -/
theorem find?_append_of_areComments {comments : List Token}
    (areComments : ∀ c ∈ comments, c.kind = .docComment) (tokens : List Token)
    : (comments ++ tokens).find? (·.kind ≠ .docComment)
      = tokens.find? (·.kind ≠ .docComment) := by
  have noneFound : comments.find? (·.kind ≠ .docComment) = none := by
    rw [List.find?_eq_none]
    intro c isMember
    simp [areComments c isMember]
  rw [List.find?_append, noneFound, Option.none_or]

/-- An entry of a block, whose member is documented as given. -/
inductive CommentedEntry {α : Type} (member : Member α)
    (documentation : Option Documentation)
  : List Token → SchemaDoc.Entry α → Prop
  | member {tokens x} (isMember : member.Derives tokens x)
    : CommentedEntry member documentation tokens (.member (member.document documentation x))
  | marked {tokens a} (isAttribute : Marked .doubleAt Attribute tokens a)
    : CommentedEntry member documentation tokens (.attribute a)

/-- The entries of a block behind a token, with runs of comments around them. A member gets the
run in front of it, less what trails the token before, and the comment that trails itself.
-/
inductive CommentedEntries {α : Type} (member : Member α)
  : Token → List Token → List (SchemaDoc.Entry α) → Prop
  | done {previous comments} (areComments : ∀ c ∈ comments, c.kind = .docComment)
    : CommentedEntries member previous comments []
  | entry {previous comments tokens last rest entry entries}
    (areComments : ∀ c ∈ comments, c.kind = .docComment)
    (isEntry
      : CommentedEntry member
          (Documentation.extend? (Documentation.ofTokens? (leading previous comments))
            (trailing? last rest))
          tokens entry)
    (isLast : tokens.getLast? = some last)
    (behind : CommentedEntries member last rest entries)
    : CommentedEntries member previous (comments ++ (tokens ++ rest)) (entry :: entries)

/-- A block with comments between its entries. -/
inductive CommentedBlock {α : Type} (keyword : TokenKind) (member : Member α)
  : List Token → Ident × List (SchemaDoc.Entry α) × Span → Prop
  | mk {first name opening tokens last entries} (isKeyword : first.kind = keyword)
    (isWord : name.isWord = true) (opens : opening.kind = .leftBrace)
    (areEntries : CommentedEntries member opening tokens entries)
    (closes : last.kind = .rightBrace)
    : CommentedBlock keyword member (first :: name :: opening :: (tokens ++ [last]))
        (name.toIdent, entries, first.span.merge last.span)

/-- A declaration that the run of comments in front of it documents. -/
inductive CommentedDeclaration (documentation : Option Documentation)
  : List Token → SchemaDoc.Declaration → Prop
  | model {tokens name entries span}
    (isBlock : CommentedBlock .model Production.fieldMember tokens (name, entries, span))
    : CommentedDeclaration documentation tokens
        (.model ⟨name, entries.filterMap Entry.member?, entries.filterMap Entry.attribute?,
          documentation, span⟩)
  | enum {tokens name entries span}
    (isBlock : CommentedBlock .enum Production.enumValueMember tokens (name, entries, span))
    : CommentedDeclaration documentation tokens
        (.enum ⟨name, entries.filterMap Entry.member?, entries.filterMap Entry.attribute?,
          documentation, span⟩)
  | ignored {tokens} (isIgnored : IgnoredBlock tokens)
    : CommentedDeclaration documentation tokens .ignored

/-- Declarations with runs of comments around them. -/
inductive CommentedDeclarations : List Token → List SchemaDoc.Declaration → Prop
  | done {comments} (areComments : ∀ c ∈ comments, c.kind = .docComment)
    : CommentedDeclarations comments []
  | declaration {comments tokens rest d ds}
    (areComments : ∀ c ∈ comments, c.kind = .docComment)
    (isDeclaration : CommentedDeclaration (Documentation.ofTokens? comments) tokens d)
    (behind : CommentedDeclarations rest ds)
    : CommentedDeclarations (comments ++ (tokens ++ rest)) (d :: ds)

end SchemaDoc.Grammar
