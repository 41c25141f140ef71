import SchemaDoc.Schema.Reader

/-! The grammar of schemas, as derivations that relate a token list to what it stands for.
Nothing here looks ahead: a derivation only says how a list splits into parts.
-/

namespace SchemaDoc.Grammar

-----------------------------------------------------------------------------------------
-- Repetition, separation and nesting
-----------------------------------------------------------------------------------------

/-- Parts that follow one another, as in `part*`. -/
inductive Sequence {α : Type} (part : List Token → α → Prop) : List Token → List α → Prop
  | nil : Sequence part [] []
  | cons {tokens rest x xs} (head : part tokens x) (tail : Sequence part rest xs)
    : Sequence part (tokens ++ rest) (x :: xs)

/-- Items with commas between them and perhaps one behind the last, as in
`(item (',' item)* ','?)?`.
-/
inductive Separated {α : Type} (item : List Token → α → Prop)
  : List Token → List α → Prop
  | nil : Separated item [] []
  | last {tokens x} (head : item tokens x) : Separated item tokens [x]
  | cons {tokens rest x xs} {comma : Token} (head : item tokens x)
    (isComma : comma.kind = .comma) (tail : Separated item rest xs)
    : Separated item (tokens ++ comma :: rest) (x :: xs)

/-- A part behind a token of the kind given. -/
inductive Marked {α : Type} (mark : TokenKind) (part : List Token → α → Prop)
  : List Token → α → Prop
  | mk {token tokens x} (isMark : token.kind = mark) (marked : part tokens x)
    : Marked mark part (token :: tokens) x

/-- Tokens among which every opening token has its closing one. Other tokens do not matter. -/
inductive Balanced (opening closing : TokenKind) : List Token → Prop
  | nil : Balanced opening closing []
  | other {token rest} (notOpening : token.kind ≠ opening) (notClosing : token.kind ≠ closing)
    (behind : Balanced opening closing rest)
    : Balanced opening closing (token :: rest)
  | group {first last inner rest} (opens : first.kind = opening)
    (within : Balanced opening closing inner) (closes : last.kind = closing)
    (behind : Balanced opening closing rest)
    : Balanced opening closing (first :: inner ++ last :: rest)

/-- A group, as in `'(' ... ')'`. -/
inductive Group (opening closing : TokenKind) : List Token → Prop
  | mk {first last inner} (opens : first.kind = opening)
    (within : Balanced opening closing inner) (closes : last.kind = closing)
    : Group opening closing (first :: inner ++ [last])

-----------------------------------------------------------------------------------------
-- Attributes
-----------------------------------------------------------------------------------------

/-- The byte range of the last token. -/
def lastSpan (tokens : List Token) : Span := tokens.getLast?.elim .none Token.span

/-- The byte range from the first token to the last one. -/
def fullSpan (tokens : List Token) : Span :=
  (tokens.head?.elim .none Token.span).merge (lastSpan tokens)

/-- `IDENT ('.' IDENT)*` -/
inductive Name : List Token → Ident → Prop
  | word {token} (isWord : token.isWord = true) : Name [token] token.toIdent
  | dotted {tokens name} {dot segment : Token} (front : Name tokens name)
    (isDot : dot.kind = .dot) (isWord : segment.isWord = true)
    : Name (tokens ++ [dot, segment]) (Production.extendName name segment)

/-- `IDENT ('.' IDENT)* ('(' ... ')')?`, with whether it is a call -/
inductive Reference : List Token → String × Bool → Prop
  | name {tokens name} (isName : Name tokens name) : Reference tokens (name.name, false)
  | call {tokens group name} (isName : Name tokens name)
    (isGroup : Group .leftParen .rightParen group)
    : Reference (tokens ++ group) (name.name, true)

/-- `STRING | IDENT ('.' IDENT)* ('(' ... ')')?`, an item of a list -/
inductive Item : List Token → String → Prop
  | string {token} (isString : token.kind = .string) : Item [token] token.text
  | reference {tokens text called} (isReference : Reference tokens (text, called))
    : Item tokens text

/-- `STRING | NUMBER | BOOLEAN | list | IDENT ('.' IDENT)* ('(' ... ')')?`, where
`list := '[' (item (',' item)* ','?)? ']'`
-/
inductive Value : List Token → SchemaDoc.Value → Prop
  | string {token} (isString : token.kind = .string) : Value [token] (.string token.text)
  | number {token x} (isNumber : token.kind = .number)
    (reads : Binary64.readLongest? token.text.toList = some x)
    : Value [token] (.number x)
  | boolean {token} (isBoolean : token.kind = .boolean)
    : Value [token] (.boolean (token.text.map Char.toLower == "true"))
  | list {first last tokens names} (opens : first.kind = .leftBracket)
    (items : Separated Item tokens names) (closes : last.kind = .rightBracket)
    : Value (first :: tokens ++ [last]) (.list names)
  | name {tokens text} (isReference : Reference tokens (text, false))
    : Value tokens (.name text)
  | call {tokens text} (isReference : Reference tokens (text, true))
    : Value tokens (.call text)

/-- `(IDENT ':')? value` -/
inductive Argument : List Token → SchemaDoc.Argument → Prop
  | positional {tokens value} (isValue : Value tokens value)
    : Argument tokens ⟨none, value, fullSpan tokens⟩
  | named {name colon tokens value} (isWord : name.isWord = true)
    (isColon : colon.kind = .colon) (isValue : Value tokens value)
    : Argument (name :: colon :: tokens)
        ⟨some name.toIdent, value, fullSpan (name :: colon :: tokens)⟩

/-- `('(' (arg (',' arg)* ','?)? ')')?` -/
inductive Arguments : List Token → List SchemaDoc.Argument → Prop
  | absent : Arguments [] []
  | present {first last tokens arguments} (opens : first.kind = .leftParen)
    (items : Separated Argument tokens arguments) (closes : last.kind = .rightParen)
    : Arguments (first :: tokens ++ [last]) arguments

/-- `IDENT ('.' IDENT)* ('(' (arg (',' arg)* ','?)? ')')?` -/
inductive Attribute : List Token → SchemaDoc.Attribute → Prop
  | mk {front back name arguments} (isName : Name front name)
    (isArguments : Arguments back arguments)
    : Attribute (front ++ back) ⟨name, arguments, name.span.merge (lastSpan (front ++ back))⟩

-----------------------------------------------------------------------------------------
-- Members of blocks
-----------------------------------------------------------------------------------------

/-- `IDENT | 'Unsupported' '(' STRING ')'` -/
inductive TypeName : List Token → FieldType → Prop
  | name {token} (isWord : token.isWord = true) : TypeName [token] (.ofName token.text)
  | unsupported {token first text last : Token} (isWord : token.isWord = true)
    (isUnsupported : token.text = "Unsupported") (opens : first.kind = .leftParen)
    (isString : text.kind = .string) (closes : last.kind = .rightParen)
    : TypeName [token, first, text, last] (.unsupported text.text)

/-- `('[' ']')?` -/
inductive ListMark : List Token → Bool → Prop
  | absent : ListMark [] false
  | present {first last : Token} (opens : first.kind = .leftBracket)
    (closes : last.kind = .rightBracket)
    : ListMark [first, last] true

/-- `'?'?` -/
inductive OptionalMark : List Token → Bool → Prop
  | absent : OptionalMark [] false
  | present {token : Token} (isQuestion : token.kind = .question) : OptionalMark [token] true

/-- `IDENT type ('[' ']')? '?'? ('@' attribute)*`, where nothing documents the field -/
inductive Field : List Token → SchemaDoc.Field → Prop
  | mk {word types lists marks back type isList isOptional attributes tokens}
    (isWord : word.isWord = true) (isType : TypeName types type)
    (isListMark : ListMark lists isList) (isOptionalMark : OptionalMark marks isOptional)
    (areAttributes : Sequence (Marked .atSign Attribute) back attributes)
    (split : tokens = word :: (types ++ (lists ++ (marks ++ back))))
    : Field tokens
        { name := word.toIdent
          type, isList, isOptional, attributes
          documentation := none
          span := fullSpan tokens }

/-- `IDENT ('@' attribute)*`, where nothing documents the value -/
inductive EnumValue : List Token → SchemaDoc.EnumValue → Prop
  | mk {word back attributes} (isWord : word.isWord = true)
    (areAttributes : Sequence (Marked .atSign Attribute) back attributes)
    : EnumValue (word :: back)
        { name := word.toIdent, attributes, documentation := none, span := word.span }

/-- `member | '@@' attribute` -/
inductive Entry {α : Type} (member : List Token → α → Prop)
  : List Token → SchemaDoc.Entry α → Prop
  | member {tokens x} (isMember : member tokens x) : Entry member tokens (.member x)
  | marked {tokens a} (isAttribute : Marked .doubleAt Attribute tokens a)
    : Entry member tokens (.attribute a)

-----------------------------------------------------------------------------------------
-- Declarations
-----------------------------------------------------------------------------------------

/-- `keyword IDENT '{' (member | '@@' attribute)* '}'`, with its name, entries and range -/
inductive Block {α : Type} (keyword : TokenKind) (member : List Token → α → Prop)
  : List Token → Ident × List (SchemaDoc.Entry α) × Span → Prop
  | mk {first name opening tokens last entries} (isKeyword : first.kind = keyword)
    (isWord : name.isWord = true) (opens : opening.kind = .leftBrace)
    (areEntries : Sequence (Entry member) tokens entries) (closes : last.kind = .rightBrace)
    : Block keyword member (first :: name :: opening :: (tokens ++ [last]))
        (name.toIdent, entries, first.span.merge last.span)

/-- `'model' IDENT '{' (field | '@@' attribute)* '}'`, where nothing documents the model -/
inductive Model : List Token → SchemaDoc.Model → Prop
  | mk {tokens name entries span} (isBlock : Block .model Field tokens (name, entries, span))
    : Model tokens
        ⟨name, entries.filterMap Entry.member?, entries.filterMap Entry.attribute?, none, span⟩

/-- `'enum' IDENT '{' (IDENT ('@' attribute)* | '@@' attribute)* '}'`, where nothing documents
the enum
-/
inductive Enum : List Token → SchemaDoc.Enum → Prop
  | mk {tokens name entries span} (isBlock : Block .enum EnumValue tokens (name, entries, span))
    : Enum tokens
        ⟨name, entries.filterMap Entry.member?, entries.filterMap Entry.attribute?, none, span⟩

/-- `('datasource' | 'generator') IDENT '{' ... '}'` -/
inductive IgnoredBlock : List Token → Prop
  | mk {first name tokens} (isKeyword : first.kind = .datasource ∨ first.kind = .generator)
    (isWord : name.isWord = true) (isGroup : Group .leftBrace .rightBrace tokens)
    : IgnoredBlock (first :: name :: tokens)

/-- `model | enum | ignored_block` -/
inductive Declaration : List Token → SchemaDoc.Declaration → Prop
  | model {tokens m} (isModel : Model tokens m) : Declaration tokens (.model m)
  | enum {tokens e} (isEnum : Enum tokens e) : Declaration tokens (.enum e)
  | ignored {tokens} (isIgnored : IgnoredBlock tokens) : Declaration tokens .ignored

/-- `(model | enum | ignored_block)*` -/
inductive Schema : List Token → SchemaDoc.Schema → Prop
  | mk {tokens declarations} (areDeclarations : Sequence Declaration tokens declarations)
    : Schema tokens (.ofDeclarations declarations)

end SchemaDoc.Grammar
