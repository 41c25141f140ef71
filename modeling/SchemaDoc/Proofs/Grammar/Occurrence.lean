import SchemaDoc.Proofs.Grammar.Parsing
import SchemaDoc.Proofs.StrictReading

/-! Where entries and declarations occur among the tokens of a text.
Each occurrence shows the run of comments in front, what stands before that, and what is behind.
So what holds of an entry or a declaration can be looked at without the others around it.
-/

namespace SchemaDoc.Grammar

open Production (Member)

-----------------------------------------------------------------------------------------
-- How entries end
-----------------------------------------------------------------------------------------

/-- Tokens that do not end in a comment or a brace. -/
def EndsInside (tokens : List Token) : Prop :=
  ∀ last ∈ tokens.getLast?, last.kind ∉ [.docComment, .leftBrace, .rightBrace]

theorem endsInside_nil : EndsInside [] := by
  simp [EndsInside]

theorem endsInside_singleton {token : Token}
    (isInside : token.kind ∉ [.docComment, .leftBrace, .rightBrace])
    : EndsInside [token] := by
  simpa [EndsInside] using isInside

theorem EndsInside.append {front back : List Token} (first : EndsInside front)
    (second : EndsInside back)
    : EndsInside (front ++ back) := by
  intro last isLast
  rw [Option.mem_def, List.getLast?_append, Option.or_eq_some_iff] at isLast
  rcases isLast with isLast | ⟨-, isLast⟩
  · exact second last isLast
  · exact first last isLast

theorem endsInside_of_isWord {token : Token} (isWord : token.isWord = true)
    : EndsInside [token] := by
  refine endsInside_singleton fun isOther => ?_
  simp only [List.mem_cons, List.not_mem_nil, or_false] at isOther
  rcases isOther with kind | kind | kind <;> exact Token.kind_ne_of_isWord isWord rfl kind

theorem endsInside_of_kind {token : Token} {kind : TokenKind} (isKind : token.kind = kind)
    (isInside : kind ∉ [.docComment, .leftBrace, .rightBrace])
    : EndsInside [token] :=
  endsInside_singleton (isKind ▸ isInside)

/-- Only the last token counts. -/
theorem EndsInside.concat {last : Token} (ends : EndsInside [last]) (front : List Token)
    : EndsInside (front ++ [last]) := by
  intro other isLast
  rw [List.getLast?_concat] at isLast
  exact ends other isLast

theorem Name.endsInside {tokens : List Token} {name : Ident} (isName : Name tokens name)
    : EndsInside tokens := by
  induction isName with
  | word isWord => exact endsInside_of_isWord isWord
  | @dotted tokens name dot segment _ isDot isWord ih =>
      have dotEnds := endsInside_of_kind isDot (by decide)
      exact ih.append (dotEnds.append (endsInside_of_isWord isWord))

theorem Attribute.endsInside {tokens : List Token} {a : SchemaDoc.Attribute}
    (isAttribute : Attribute tokens a)
    : EndsInside tokens := by
  obtain ⟨isName, areArguments⟩ := isAttribute
  refine isName.endsInside.append ?_
  cases areArguments with
  | absent => exact endsInside_nil
  | present _ _ closes => exact (endsInside_of_kind closes (by decide)).concat _

theorem Marked.endsInside {mark : TokenKind} {tokens : List Token} {a : SchemaDoc.Attribute}
    (isMarked : Marked mark Attribute tokens a)
    (isInside : mark ∉ [.docComment, .leftBrace, .rightBrace])
    : EndsInside tokens := by
  obtain ⟨isMark, isAttribute⟩ := isMarked
  exact (endsInside_of_kind isMark isInside).append isAttribute.endsInside

theorem attributes_endsInside {tokens : List Token} {attributes : List SchemaDoc.Attribute}
    (areAttributes : Sequence (Marked .atSign Attribute) tokens attributes)
    : EndsInside tokens := by
  induction areAttributes with
  | nil => exact endsInside_nil
  | cons isMarked _ ih => exact (isMarked.endsInside (by decide)).append ih

theorem Field.endsInside {tokens : List Token} {field : SchemaDoc.Field}
    (isField : Field tokens field)
    : EndsInside tokens := by
  obtain ⟨isWord, isType, isListMark, isOptionalMark, areAttributes, rfl⟩ := isField
  refine (endsInside_of_isWord isWord).append (EndsInside.append ?_ (EndsInside.append ?_
    (EndsInside.append ?_ (attributes_endsInside areAttributes))))
  · cases isType with
    | name isWord => exact endsInside_of_isWord isWord
    | @unsupported token first text _ _ _ _ _ closes =>
        exact (endsInside_of_kind closes (by decide)).concat [token, first, text]
  · cases isListMark with
    | absent => exact endsInside_nil
    | @present first _ _ closes => exact (endsInside_of_kind closes (by decide)).concat [first]
  · cases isOptionalMark with
    | absent => exact endsInside_nil
    | present isQuestion => exact endsInside_of_kind isQuestion (by decide)

theorem EnumValue.endsInside {tokens : List Token} {value : SchemaDoc.EnumValue}
    (isValue : EnumValue tokens value)
    : EndsInside tokens := by
  obtain ⟨isWord, areAttributes⟩ := isValue
  exact (endsInside_of_isWord isWord).append (attributes_endsInside areAttributes)

-----------------------------------------------------------------------------------------
-- Entries
-----------------------------------------------------------------------------------------

section Entries

variable {α : Type} {member : Member α} {whole : List Token}

/-- An entry of a block among all tokens. Its comments stand behind a token that is neither a
comment nor the end of a declaration.
-/
inductive EntryOccurs (member : Member α) (whole : List Token) : SchemaDoc.Entry α → Prop
  | mk {front previous comments tokens last rest entry}
    (split : whole = front ++ previous :: (comments ++ (tokens ++ rest)))
    (isPrevious : previous.kind ≠ .docComment ∧ previous.kind ≠ .rightBrace)
    (areComments : ∀ c ∈ comments, c.kind = .docComment)
    (isEntry
      : CommentedEntry member
          (Documentation.extend? (Documentation.ofTokens? (leading previous comments))
            (trailing? last rest))
          tokens entry)
    (isLast : tokens.getLast? = some last) (ends : EndsInside tokens) (notAtEnd : rest ≠ [])
    : EntryOccurs member whole entry

theorem CommentedEntry.endsInside {documentation : Option Documentation} {tokens : List Token}
    {entry : SchemaDoc.Entry α}
    (endInside : ∀ {tokens x}, member.Derives tokens x → EndsInside tokens)
    (isEntry : CommentedEntry member documentation tokens entry)
    : EndsInside tokens := by
  cases isEntry with
  | member isMember => exact endInside isMember
  | marked isMarked => exact isMarked.endsInside (by decide)

/-- Every entry of a block occurs where the block does, by induction from the front of it. -/
theorem CommentedEntries.occur
    (endInside : ∀ {tokens x}, member.Derives tokens x → EndsInside tokens)
    {previous brace : Token} {front tokens back : List Token}
    {entries : List (SchemaDoc.Entry α)}
    (areEntries : CommentedEntries member previous tokens entries)
    (split : whole = front ++ previous :: (tokens ++ brace :: back))
    (isPrevious : previous.kind ≠ .docComment ∧ previous.kind ≠ .rightBrace)
    (closes : brace.kind = .rightBrace)
    : ∀ entry ∈ entries, EntryOccurs member whole entry := by
  induction areEntries generalizing front with
  | done => simp
  | @entry previous comments tokens last rest entry entries areComments isEntry isLast _ ih =>
      have notComment : ∀ token ∈ (brace :: back).head?, token.kind ≠ .docComment := by
        simp [closes]
      have ends := isEntry.endsInside endInside
      have trails : trailing? last (rest ++ brace :: back) = trailing? last rest :=
        trailing?_append notComment
      rw [← trails] at isEntry
      obtain ⟨others, rfl⟩ := List.getLast?_eq_some_iff.mp isLast
      have split' : whole
          = front ++ previous :: (comments ++ ((others ++ [last]) ++ (rest ++ brace :: back))) := by
        rw [split]
        simp
      have occurs : EntryOccurs member whole entry :=
        .mk split' isPrevious areComments isEntry isLast ends (by simp)
      have isLastKind : last.kind ≠ .docComment ∧ last.kind ≠ .rightBrace := by
        have isInside := ends last isLast
        simp only [List.mem_cons, not_or] at isInside
        exact ⟨isInside.1, isInside.2.2.1⟩
      refine List.forall_mem_cons.mpr ⟨occurs, ?_⟩
      exact @ih (front ++ previous :: (comments ++ others)) (by rw [split]; simp) isLastKind

end Entries

-----------------------------------------------------------------------------------------
-- Declarations
-----------------------------------------------------------------------------------------

section Declarations

variable {whole : List Token}

/-- A declaration among all tokens. Its comments stand at the front or behind a closing brace. -/
inductive DeclarationOccurs (whole : List Token) : SchemaDoc.Declaration → Prop
  | mk {front comments tokens rest d} (split : whole = front ++ (comments ++ (tokens ++ rest)))
    (frontEnds : ∀ last ∈ front.getLast?, last.kind = .rightBrace)
    (areComments : ∀ c ∈ comments, c.kind = .docComment)
    (isDeclaration : CommentedDeclaration (Documentation.ofTokens? comments) tokens d)
    : DeclarationOccurs whole d

/-- Behind a declaration there is a closing brace. -/
theorem CommentedDeclaration.ends_of_append {documentation : Option Documentation}
    {tokens : List Token} {d : SchemaDoc.Declaration}
    (isDeclaration : CommentedDeclaration documentation tokens d) (front comments : List Token)
    : ∀ last ∈ (front ++ (comments ++ tokens)).getLast?, last.kind = .rightBrace := by
  intro last isLast
  obtain ⟨brace, isBrace, closes⟩ := isDeclaration.getLast?
  simp only [List.getLast?_append, isBrace, Option.some_or, Option.mem_def,
    Option.some.injEq] at isLast
  rwa [← isLast]

/-- Every declaration occurs where they all do, by induction from the front. -/
theorem CommentedDeclarations.occur {front tokens back : List Token}
    {ds : List SchemaDoc.Declaration} (areDeclarations : CommentedDeclarations tokens ds)
    (split : whole = front ++ (tokens ++ back))
    (frontEnds : ∀ last ∈ front.getLast?, last.kind = .rightBrace)
    : ∀ d ∈ ds, DeclarationOccurs whole d := by
  induction areDeclarations generalizing front with
  | done => simp
  | @declaration comments tokens rest d ds areComments isDeclaration _ ih =>
      have split' : whole = front ++ (comments ++ (tokens ++ (rest ++ back))) := by
        rw [split]
        simp
      have occurs : DeclarationOccurs whole d := .mk split' frontEnds areComments isDeclaration
      refine List.forall_mem_cons.mpr ⟨occurs, ?_⟩
      exact @ih (front ++ (comments ++ tokens)) (by rw [split]; simp)
        (isDeclaration.ends_of_append front comments)

/-- The entries of a block occur where the block does. -/
theorem CommentedBlock.occur {α : Type} {member : Member α} {keyword : TokenKind}
    {front tokens back : List Token} {name : Ident} {entries : List (SchemaDoc.Entry α)}
    {span : Span} (endInside : ∀ {tokens x}, member.Derives tokens x → EndsInside tokens)
    (isBlock : CommentedBlock keyword member tokens (name, entries, span))
    (split : whole = front ++ (tokens ++ back))
    : ∀ entry ∈ entries, EntryOccurs member whole entry := by
  obtain @⟨first, name, opening, tokens, last, _, _, _, opens, areEntries, closes⟩ := isBlock
  have isPrevious : opening.kind ≠ .docComment ∧ opening.kind ≠ .rightBrace := by
    rw [opens]
    decide
  have split' : whole = (front ++ [first, name]) ++ opening :: (tokens ++ last :: back) := by
    rw [split]
    simp
  exact areEntries.occur endInside split' isPrevious closes

/-- The fields and the attributes of a model occur where it does. -/
theorem DeclarationOccurs.model {m : SchemaDoc.Model} (occurs : DeclarationOccurs whole (.model m))
    : (∀ field ∈ m.fields, EntryOccurs Production.fieldMember whole (.member field))
      ∧ ∀ a ∈ m.attributes, EntryOccurs Production.fieldMember whole (.attribute a) := by
  obtain @⟨front, comments, _, rest, _, split, -, -, isDeclaration⟩ := occurs
  rw [← List.append_assoc] at split
  cases isDeclaration with
  | model isBlock =>
      have occur := isBlock.occur Field.endsInside split
      exact ⟨fun _ isMember => occur _ (Entry.mem_members_iff.mp isMember),
        fun _ isMember => occur _ (Entry.mem_attributes_iff.mp isMember)⟩

/-- The values and the attributes of an enum occur where it does. -/
theorem DeclarationOccurs.enum {e : SchemaDoc.Enum} (occurs : DeclarationOccurs whole (.enum e))
    : (∀ value ∈ e.values, EntryOccurs Production.enumValueMember whole (.member value))
      ∧ ∀ a ∈ e.attributes, EntryOccurs Production.enumValueMember whole (.attribute a) := by
  obtain @⟨front, comments, _, rest, _, split, -, -, isDeclaration⟩ := occurs
  rw [← List.append_assoc] at split
  cases isDeclaration with
  | enum isBlock =>
      have occur := isBlock.occur EnumValue.endsInside split
      exact ⟨fun _ isMember => occur _ (Entry.mem_members_iff.mp isMember),
        fun _ isMember => occur _ (Entry.mem_attributes_iff.mp isMember)⟩

/-- A schema that is read from a text is made up of declarations that occur among its tokens. -/
theorem occur_of_ofText {strict : Bool} {text : String} {schema : SchemaDoc.Schema}
    (read : SchemaDoc.Schema.ofText strict text = .ok schema)
    : ∃ ds,
        schema = .ofDeclarations ds
        ∧ CommentedDeclarations (Token.beforeEnd (tokenize text)) ds
        ∧ ∀ d ∈ ds, DeclarationOccurs (Token.significant (tokenize text)) d := by
  have permissive := SchemaDoc.Schema.ofText_permissive_of_ok read
  obtain ⟨ds, areDeclarations, made⟩ := SchemaDoc.Schema.ofText_eq_ok.mp permissive
  obtain ⟨ending, whole, -⟩ := Token.significant_tokenize text
  have split : Token.significant (tokenize text)
      = [] ++ (Token.beforeEnd (tokenize text) ++ [ending]) := whole
  exact ⟨ds, made, areDeclarations, areDeclarations.occur split (by simp)⟩

end Declarations

end SchemaDoc.Grammar
