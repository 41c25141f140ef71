import SchemaDoc.Proofs.Walk.Basic

/-! Reading a schema by position.
Every loop is one of `iterate`, every token is looked up by its index, and the tokens before the
position that is reached are looked up again where a range of bytes ends.
-/

namespace SchemaDoc.Walk

-----------------------------------------------------------------------------------------
-- Attributes
-----------------------------------------------------------------------------------------

/-- A token of a group, with the number of groups that are open in front of it and behind it. -/
def groupRound (opening closing : TokenKind) (depth : Nat) : Walk (Round Nat Unit) := do
  if depth = 0 then pure (.done ())
  else
    let kind ← peekKind
    if kind = .endOfInput then refuse (.token closing)
    else if kind = opening then
      let _ ← advance
      pure (.again (depth + 1))
    else if kind = closing then
      let depth ← minus depth 1
      let _ ← advance
      pure (.again depth)
    else
      let _ ← advance
      pure (.again depth)

/-- Takes a whole group, whatever it holds. -/
def group (opening closing : TokenKind) : Walk Unit := do
  let _ ← token opening
  iterate (groupRound opening closing) 1

/-- The part of a name behind a dot, if there is a dot. -/
def nameSegment : Walk (Option Token) := do
  if ← accept .dot then
    let segment ← word .nameAfterDot
    pure (some segment)
  else pure none

/-- A name of one or more parts. -/
def dottedName (expected : Expectation) : Walk Ident := do
  let first ← word expected
  let segments ← collect nameSegment
  pure (segments.foldl Production.extendName first.toIdent)

/-- A name whose arguments, if it has any, are passed over; says whether it had some. -/
def nameWithArguments (expected : Expectation) : Walk (String × Bool) := do
  let name ← dottedName expected
  let kind ← peekKind
  if kind = .leftParen then
    group .leftParen .rightParen
    pure (name.name, true)
  else pure (name.name, false)

/-- One more item behind those that are there. Only a comma lets another one follow. -/
def itemRound {α : Type} (closing : TokenKind) (item : Walk α) (xs : List α)
    : Walk (Round (List α) (List α)) := do
  let kind ← peekKind
  if kind = closing then pure (.done xs)
  else
    let x ← item
    if ← accept .comma then pure (.again (xs ++ [x])) else pure (.done (xs ++ [x]))

/-- Items up to and with a closing token, with commas between them. -/
def itemsUntil {α : Type} (closing : TokenKind) (item : Walk α) : Walk (List α) := do
  let items ← iterate (itemRound closing item) []
  let _ ← token closing
  pure items

/-- An item of a list: a text or a name, of which any arguments are passed over. -/
def listItem : Walk String := do
  let kind ← peekKind
  if kind = .string then
    let text ← token .string
    pure text.text
  else
    let name ← nameWithArguments .listItem
    pure name.1

/-- A number; of its text the longest start that can be read counts. -/
def number : Walk Value := do
  let literal ← token .number
  match Binary64.readLongest? literal.text.toList with
  | some x => pure (.number x)
  | none => refuseAt literal (.unreadableNumber literal)

/-- The value of an argument. -/
def value : Walk Value := do
  match ← peekKind with
  | .string =>
      let text ← token .string
      pure (.string text.text)
  | .number => number
  | .boolean =>
      let literal ← token .boolean
      pure (.boolean (literal.text.map Char.toLower == "true"))
  | .leftBracket =>
      let _ ← token .leftBracket
      let items ← itemsUntil .rightBracket listItem
      pure (.list items)
  | _ =>
      let name ← nameWithArguments .attributeValue
      pure (if name.2 then .call name.1 else .name name.1)

/-- The name of an argument that is a word with a colon behind it; both are taken. -/
def argumentName : Walk (Option Token) := do
  let kind ← peekKind
  let ahead ← peekKindAhead 1
  if kind.isWord ∧ ahead = .colon then
    let name ← advance
    let _ ← advance
    pure (some name)
  else pure none

/-- An argument: a value, perhaps with a name. -/
def argument : Walk Argument := do
  let start ← peek
  let name ← argumentName
  let value ← value
  let last ← behind
  pure ⟨name.map Token.toIdent, value, start.span.merge last.span⟩

/-- The arguments of an attribute, which has none unless a parenthesis follows its name. -/
def arguments : Walk (List Argument) := do
  if ← accept .leftParen then itemsUntil .rightParen argument
  else pure []

/-- An attribute behind its sign. -/
def attributeBody : Walk Attribute := do
  let name ← dottedName .attributeName
  let arguments ← arguments
  let last ← behind
  pure ⟨name, arguments, name.span.merge last.span⟩

/-- An attribute with its sign, if the sign is there. -/
def nextAttribute : Walk (Option Attribute) := do
  if ← accept .atSign then
    let read ← attributeBody
    pure (some read)
  else pure none

/-- The attributes of a field or an enum value. -/
def attributes : Walk (List Attribute) := collect nextAttribute

-----------------------------------------------------------------------------------------
-- Declarations
-----------------------------------------------------------------------------------------

/-- The comment that stands at the position that is reached, if one does. -/
def nextComment : Walk (Option Token) := do
  let kind ← peekKind
  if kind = .docComment then
    let comment ← advance
    pure (some comment)
  else pure none

/-- The comments in front of a declaration. -/
def leadingComments : Walk (List Token) := collect nextComment

/-- The comment behind a declaration, on the line on which its last token begins. -/
def trailingComment : Walk (Option Token) := do
  let last ← behind
  let comment ← peek
  if comment.kind = .docComment ∧ comment.line = last.line then
    let _ ← advance
    pure (some comment)
  else pure none

/-- The type of a field. The text of an unsupported type stands in parentheses. -/
def fieldType : Walk FieldType := do
  let name ← word .fieldType
  let kind ← peekKind
  if name.text = "Unsupported" ∧ kind = .leftParen then
    let _ ← token .leftParen
    let text ← token .string
    let _ ← token .rightParen
    pure (.unsupported text.text)
  else pure (.ofName name.text)

/-- The brackets of a list type, if they are there. -/
def listMark : Walk Bool := do
  if ← accept .leftBracket then
    let _ ← token .rightBracket
    pure true
  else pure false

/-- A field behind its documentation. -/
def field (documentation : Option Documentation) : Walk Field := do
  let name ← word .fieldName
  let type ← fieldType
  let isList ← listMark
  let isOptional ← accept .question
  let attributes ← attributes
  let last ← behind
  let comment ← trailingComment
  pure
    { name := name.toIdent
      type, isList, isOptional, attributes
      documentation := Documentation.extend? documentation comment
      span := name.span.merge last.span }

/-- A value of an enum behind its documentation. -/
def enumValue (documentation : Option Documentation) : Walk EnumValue := do
  let name ← word .valueOrAttribute
  let attributes ← attributes
  let comment ← trailingComment
  pure
    { name := name.toIdent
      attributes
      documentation := Documentation.extend? documentation comment
      span := name.span }

/-- The next entry of a block, if the block does not end. -/
def nextEntry {α : Type} (expected : Expectation) (member : Option Documentation → Walk α)
    : Walk (Option (Entry α)) := do
  let comments ← leadingComments
  let kind ← peekKind
  if kind = .rightBrace then pure none
  else if kind = .doubleAt then
    let _ ← token .doubleAt
    let read ← attributeBody
    let _ ← trailingComment
    pure (some (.attribute read))
  else if kind.isWord then
    let x ← member (Documentation.ofTokens? comments)
    pure (some (.member x))
  else refuse expected

/-- The name, the entries and the byte range of a block that begins with a keyword. -/
def block {α : Type} (keyword : TokenKind) (named expected : Expectation)
    (member : Option Documentation → Walk α)
    : Walk (Ident × List (Entry α) × Span) := do
  let first ← token keyword
  let name ← word named
  let _ ← token .leftBrace
  let _ ← trailingComment
  let entries ← collect (nextEntry expected member)
  let last ← token .rightBrace
  pure (name.toIdent, entries, first.span.merge last.span)

/-- A model behind its documentation. -/
def model (documentation : Option Documentation) : Walk Model := do
  let (name, entries, span) ← block .model .modelName .fieldOrAttribute field
  pure ⟨name, entries.filterMap Entry.member?, entries.filterMap Entry.attribute?,
    documentation, span⟩

/-- An enum behind its documentation. -/
def enum (documentation : Option Documentation) : Walk Enum := do
  let (name, entries, span) ← block .enum .enumName .valueOrAttribute enumValue
  pure ⟨name, entries.filterMap Entry.member?, entries.filterMap Entry.attribute?,
    documentation, span⟩

/-- A block that is passed over, whatever stands between its braces. -/
def ignoredBlock (keyword : TokenKind) : Walk Unit := do
  let _ ← token keyword
  let _ ← word .blockName
  group .leftBrace .rightBrace

/-- The next declaration, if the input does not end. -/
def nextDeclaration : Walk (Option Declaration) := do
  let comments ← leadingComments
  match ← peekKind with
  | .endOfInput => pure none
  | .model =>
      let read ← model (Documentation.ofTokens? comments)
      pure (some (.model read))
  | .enum =>
      let read ← enum (Documentation.ofTokens? comments)
      pure (some (.enum read))
  | .datasource =>
      ignoredBlock .datasource
      pure (some .ignored)
  | .generator =>
      ignoredBlock .generator
      pure (some .ignored)
  | _ => refuse .declaration

/-- A whole schema. -/
def schema : Walk Schema := do
  let declarations ← collect nextDeclaration
  pure (.ofDeclarations declarations)

end SchemaDoc.Walk
