import SchemaDoc.Schema.Reader.Attribute

/-! Reading the declarations of a schema from tokens, one production for each kind of declaration.
Documentation is what stands before a declaration and what stands behind it on its last line.
-/

namespace SchemaDoc

/-- The documentation that a run of comments makes up, if there is any. -/
def Documentation.ofTokens? (comments : List Token) : Option Documentation :=
  match comments with
  | [] => none
  | first :: others =>
      some
        { text := "\n".intercalate (comments.map Token.text)
          span := first.span.merge (others.getLast?.getD first).span }

/-- Documentation with a comment added at its end. -/
def Documentation.extend? (documentation : Option Documentation) (comment : Option Token)
    : Option Documentation :=
  match comment, documentation with
  | none, documentation => documentation
  | some comment, none => some ⟨comment.text, comment.span⟩
  | some comment, some documentation =>
      some
        { text := documentation.text ++ "\n" ++ comment.text
          span := documentation.span.merge comment.span }

/-- What stands between the braces of a model or an enum: its members, and attributes that
belong to it as a whole.
-/
inductive Entry (α : Type) where
  | member (x : α)
  | attribute (a : Attribute)
  deriving Repr

namespace Entry

variable {α : Type}

/-- The member, if the entry is one. -/
def member? : Entry α → Option α
  | .member x => some x
  | .attribute _ => none

/-- The attribute, if the entry is one. -/
def attribute? : Entry α → Option Attribute
  | .member _ => none
  | .attribute a => some a

end Entry

/-- What stands at the top level: a model, an enum, or a block that is passed over. -/
inductive Declaration where
  | model (model : Model)
  | enum (enum : Enum)
  | ignored
  deriving Repr

namespace Declaration

/-- The model, if the declaration is one. -/
def model? : Declaration → Option Model
  | model m => some m
  | _ => none

/-- The enum, if the declaration is one. -/
def enum? : Declaration → Option Enum
  | enum e => some e
  | _ => none

end Declaration

namespace Production

/-- The comments in front of a declaration. -/
def leadingComments : Production (List Token) := takeWhile (·.kind = .docComment)

/-- The comment behind a declaration, on the line on which its last token begins. -/
def trailingComment : Production (Option Token) :=
  optional fun last token => token.kind = .docComment && token.line = last.line

theorem takes_leadingComments : Takes 0 leadingComments := takes_takeWhile _

theorem takes_trailingComment : Takes 0 trailingComment := takes_optional _

/-- The type of a field. The text of an unsupported type stands in parentheses. -/
def fieldType : Production FieldType := do
  let name ← word .fieldType
  let kind ← peekKind
  if name.text = "Unsupported" ∧ kind = .leftParen then
    let _ ← token .leftParen
    let text ← token .string
    let _ ← token .rightParen
    pure (.unsupported text.text)
  else pure (.ofName name.text)

/-- The brackets of a list type, if they are there. -/
def listMark : Production Bool := do
  if ← accept .leftBracket then
    let _ ← token .rightBracket
    pure true
  else pure false

/-- A field behind its documentation. -/
def field (documentation : Option Documentation) : Production Field := do
  let name ← word .fieldName
  let type ← fieldType
  let isList ← listMark
  let isOptional ← accept .question
  let attributes ← attributes
  let last ← previous
  let comment ← trailingComment
  pure
    { name := name.toIdent
      type, isList, isOptional, attributes
      documentation := Documentation.extend? documentation comment
      span := name.span.merge last.span }

/-- A value of an enum behind its documentation. -/
def enumValue (documentation : Option Documentation) : Production EnumValue := do
  let name ← word .valueOrAttribute
  let attributes ← attributes
  let comment ← trailingComment
  pure
    { name := name.toIdent
      attributes
      documentation := Documentation.extend? documentation comment
      span := name.span }

theorem takes_fieldType : Takes 1 fieldType :=
  (takes_word _).bind fun _ => takes_peekKind.bind fun _ =>
    .ite
      (((takes_token _).bind fun _ => (takes_token _).bind fun _ => (takes_token _).bind fun _ =>
        takes_pure _).mono (Nat.zero_le _))
      (takes_pure _)

theorem takes_listMark : Takes 0 listMark :=
  (takes_accept _).bind fun _ =>
    .ite (((takes_token _).bind fun _ => takes_pure _).mono (Nat.zero_le _)) (takes_pure _)

theorem takes_field (documentation : Option Documentation)
    : Takes 1 (field documentation) :=
  Takes.mono
    ((takes_word _).bind fun _ => takes_fieldType.bind fun _ => takes_listMark.bind fun _ =>
      (takes_accept _).bind fun _ => takes_attributes.bind fun _ => takes_previous.bind fun _ =>
      takes_trailingComment.bind fun _ => takes_pure _)
    (by omega)

theorem takes_enumValue (documentation : Option Documentation)
    : Takes 1 (enumValue documentation) :=
  (takes_word _).bind fun _ => takes_attributes.bind fun _ =>
    takes_trailingComment.bind fun _ => takes_pure _

/-- The next entry of a block, if the block does not end. Comments in front of an attribute or
of the end, and one behind an attribute, document nothing.
-/
def nextEntry {α : Type} (expected : Expectation)
    (member : Option Documentation → Production α)
    : Production (Option (Entry α)) := do
  let comments ← leadingComments
  let kind ← peekKind
  if kind = .rightBrace then pure none
  else if kind = .doubleAt then
    let _ ← token .doubleAt
    let read ← attributeBody
    let _ ← trailingComment
    pure (some (.attribute read))
  else if kind.isWord then
    let x ← member (Documentation.ofTokens? comments)
    pure (some (.member x))
  else refuse expected

theorem advances_nextEntry {α : Type} (expected : Expectation)
    {member : Option Documentation → Production α}
    (h : ∀ documentation, Takes 1 (member documentation))
    : Advances (nextEntry expected member) :=
  takes_leadingComments.bind_advances fun _ => takes_peekKind.bind_advances fun _ =>
    .ite advances_none
      (.ite
        (Takes.mono
          ((takes_token _).bind fun _ => takes_attributeBody.bind fun _ =>
            takes_trailingComment.bind fun _ => takes_pure _)
          (by omega)).advances
        (.ite ((h _).bind fun _ => takes_pure _).advances (takes_refuse _ 1).advances))

theorem takes_nextEntry {α : Type} (expected : Expectation)
    {member : Option Documentation → Production α}
    (h : ∀ documentation, Takes 1 (member documentation))
    : Takes 0 (nextEntry expected member) :=
  takes_leadingComments.bind fun _ => takes_peekKind.bind fun _ =>
    .ite (takes_pure _)
      (.ite
        (Takes.mono
          ((takes_token _).bind fun _ => takes_attributeBody.bind fun _ =>
            takes_trailingComment.bind fun _ => takes_pure _)
          (by omega))
        (.ite (((h _).bind fun _ => takes_pure _).mono (by omega)) (takes_refuse _ _)))

/-- The name, the entries and the byte range of a block that begins with a keyword. A comment
behind the opening brace documents nothing.
-/
def block {α : Type} (keyword : TokenKind) (named expected : Expectation)
    (member : Option Documentation → Production α)
    (h : ∀ documentation, Takes 1 (member documentation))
    : Production (Ident × List (Entry α) × Span) := do
  let first ← token keyword
  let name ← word named
  let _ ← token .leftBrace
  let _ ← trailingComment
  let entries ← repeated (nextEntry expected member) (advances_nextEntry expected h)
  let last ← token .rightBrace
  pure (name.toIdent, entries, first.span.merge last.span)

theorem takes_block {α : Type} (keyword : TokenKind) (named expected : Expectation)
    {member : Option Documentation → Production α}
    (h : ∀ documentation, Takes 1 (member documentation))
    : Takes 1 (block keyword named expected member h) :=
  Takes.mono
    ((takes_token _).bind fun _ => (takes_word _).bind fun _ => (takes_token _).bind fun _ =>
      takes_trailingComment.bind fun _ =>
      (takes_repeated _ (takes_nextEntry expected h)).bind fun _ =>
      (takes_token _).bind fun _ => takes_pure _)
    (by omega)

/-- A model behind its documentation. -/
def model (documentation : Option Documentation) : Production Model := do
  let (name, entries, span) ← block .model .modelName .fieldOrAttribute field takes_field
  pure ⟨name, entries.filterMap Entry.member?, entries.filterMap Entry.attribute?,
    documentation, span⟩

/-- An enum behind its documentation. -/
def enum (documentation : Option Documentation) : Production Enum := do
  let (name, entries, span) ←
    block .enum .enumName .valueOrAttribute enumValue takes_enumValue
  pure ⟨name, entries.filterMap Entry.member?, entries.filterMap Entry.attribute?,
    documentation, span⟩

/-- A block that is passed over, whatever stands between its braces. -/
def ignoredBlock (keyword : TokenKind) : Production Unit := do
  let _ ← token keyword
  let _ ← word .blockName
  group .leftBrace .rightBrace

theorem takes_model (documentation : Option Documentation)
    : Takes 1 (model documentation) :=
  (takes_block _ _ _ _).bind fun _ => takes_pure _

theorem takes_enum (documentation : Option Documentation) : Takes 1 (enum documentation) :=
  (takes_block _ _ _ _).bind fun _ => takes_pure _

theorem takes_ignoredBlock (keyword : TokenKind) : Takes 1 (ignoredBlock keyword) :=
  Takes.mono
    ((takes_token _).bind fun _ => (takes_word _).bind fun _ => takes_group _ _) (by omega)

/-- The next declaration, if the input does not end. -/
def nextDeclaration : Production (Option Declaration) := do
  let comments ← leadingComments
  match ← peekKind with
  | .endOfInput => pure none
  | .model =>
      let read ← model (Documentation.ofTokens? comments)
      pure (some (.model read))
  | .enum =>
      let read ← enum (Documentation.ofTokens? comments)
      pure (some (.enum read))
  | .datasource =>
      ignoredBlock .datasource
      pure (some .ignored)
  | .generator =>
      ignoredBlock .generator
      pure (some .ignored)
  | _ => refuse .declaration

theorem advances_nextDeclaration : Advances nextDeclaration := by
  refine takes_leadingComments.bind_advances fun _ =>
    takes_peekKind.bind_advances fun kind => ?_
  split
  · exact advances_none
  · exact ((takes_model _).bind fun _ => takes_pure _).advances
  · exact ((takes_enum _).bind fun _ => takes_pure _).advances
  · exact ((takes_ignoredBlock _).bind fun _ => takes_pure _).advances
  · exact ((takes_ignoredBlock _).bind fun _ => takes_pure _).advances
  · exact (takes_refuse _ 1).advances

/-- All declarations up to the end of the input. -/
def declarations : Production (List Declaration) :=
  repeated nextDeclaration advances_nextDeclaration

end Production

end SchemaDoc
