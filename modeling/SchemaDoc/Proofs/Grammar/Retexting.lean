import SchemaDoc.Proofs.Grammar.Attributes

/-! Nothing but documentation depends on what a documentation comment says.
Inside parentheses and ignored blocks such comments are passed over, and nowhere else can they
stand in a derivation, so a change of their texts leaves every derivation as it is.
-/

namespace SchemaDoc.Grammar

/-- A change of tokens that touches nothing but the texts of documentation comments. -/
structure Retexts (f : Token → Token) : Prop where
  kind : ∀ token, (f token).kind = token.kind
  span : ∀ token, (f token).span = token.span
  line : ∀ token, (f token).line = token.line
  fixed : ∀ token, token.kind ≠ .docComment → f token = token

variable {f : Token → Token}

theorem Retexts.fixed_of_kind (retexts : Retexts f) {kind : TokenKind} {token : Token}
    (isKind : token.kind = kind) (notComment : kind ≠ .docComment)
    : f token = token :=
  retexts.fixed token (isKind ▸ notComment)

theorem Retexts.fixed_of_isWord (retexts : Retexts f) {token : Token}
    (isWord : token.isWord = true)
    : f token = token :=
  retexts.fixed token (Token.kind_ne_of_isWord isWord rfl)

theorem Retexts.lastSpan_map (retexts : Retexts f) (tokens : List Token)
    : lastSpan (tokens.map f) = lastSpan tokens := by
  rw [lastSpan, lastSpan, List.getLast?_map]
  cases tokens.getLast? with
  | none => rfl
  | some last => exact retexts.span last

theorem Retexts.fullSpan_map (retexts : Retexts f) (tokens : List Token)
    : fullSpan (tokens.map f) = fullSpan tokens := by
  rw [fullSpan, fullSpan, retexts.lastSpan_map, List.head?_map]
  cases tokens.head? with
  | none => rfl
  | some first => exact congrArg (Span.merge · _) (retexts.span first)

-----------------------------------------------------------------------------------------
-- Repetition, separation and nesting
-----------------------------------------------------------------------------------------

section Parts

variable {α : Type} {part : List Token → α → Prop}

theorem Sequence.map (step : ∀ {tokens x}, part tokens x → part (tokens.map f) x)
    {tokens : List Token} {xs : List α} (areParts : Sequence part tokens xs)
    : Sequence part (tokens.map f) xs := by
  induction areParts with
  | nil => exact .nil
  | cons head _ ih =>
      rw [List.map_append]
      exact .cons (step head) ih

theorem Separated.map (retexts : Retexts f)
    (step : ∀ {tokens x}, part tokens x → part (tokens.map f) x)
    {tokens : List Token} {xs : List α} (areItems : Separated part tokens xs)
    : Separated part (tokens.map f) xs := by
  induction areItems with
  | nil => exact .nil
  | last head => exact .last (step head)
  | cons head isComma _ ih =>
      rw [List.map_append, List.map_cons, retexts.fixed_of_kind isComma (by decide)]
      exact .cons (step head) isComma ih

theorem Marked.map (retexts : Retexts f) {mark : TokenKind} (notComment : mark ≠ .docComment)
    (step : ∀ {tokens x}, part tokens x → part (tokens.map f) x)
    {tokens : List Token} {x : α} (isMarked : Marked mark part tokens x)
    : Marked mark part (tokens.map f) x := by
  obtain ⟨isMark, isPart⟩ := isMarked
  rw [List.map_cons, retexts.fixed_of_kind isMark notComment]
  exact .mk isMark (step isPart)

end Parts

theorem Balanced.map (retexts : Retexts f) {opening closing : TokenKind} {tokens : List Token}
    (balanced : Balanced opening closing tokens)
    : Balanced opening closing (tokens.map f) := by
  induction balanced with
  | nil => exact .nil
  | @other token _ notOpening notClosing _ ih =>
      rw [← retexts.kind token] at notOpening notClosing
      exact .other notOpening notClosing ih
  | @group first last _ _ opens _ closes _ within behind =>
      rw [← retexts.kind first] at opens
      rw [← retexts.kind last] at closes
      rw [List.map_append, List.map_cons, List.map_cons]
      exact .group opens within closes behind

theorem Group.map (retexts : Retexts f) {opening closing : TokenKind} {tokens : List Token}
    (isGroup : Group opening closing tokens)
    : Group opening closing (tokens.map f) := by
  obtain @⟨first, last, _, opens, within, closes⟩ := isGroup
  rw [← retexts.kind first] at opens
  rw [← retexts.kind last] at closes
  rw [List.map_append, List.map_cons, List.map_singleton]
  exact .mk opens (within.map retexts) closes

-----------------------------------------------------------------------------------------
-- Attributes
-----------------------------------------------------------------------------------------

theorem Name.map (retexts : Retexts f) {tokens : List Token} {name : Ident}
    (isName : Name tokens name)
    : Name (tokens.map f) name := by
  induction isName with
  | word isWord =>
      rw [List.map_singleton, retexts.fixed_of_isWord isWord]
      exact .word isWord
  | dotted _ isDot isWord ih =>
      rw [List.map_append, List.map_cons, List.map_singleton,
        retexts.fixed_of_kind isDot (by decide), retexts.fixed_of_isWord isWord]
      exact .dotted ih isDot isWord

theorem Reference.map (retexts : Retexts f) {tokens : List Token} {reference : String × Bool}
    (isReference : Reference tokens reference)
    : Reference (tokens.map f) reference := by
  cases isReference with
  | name isName => exact .name (isName.map retexts)
  | call isName isGroup =>
      rw [List.map_append]
      exact .call (isName.map retexts) (isGroup.map retexts)

theorem Item.map (retexts : Retexts f) {tokens : List Token} {text : String}
    (isItem : Item tokens text)
    : Item (tokens.map f) text := by
  cases isItem with
  | string isString =>
      rw [List.map_singleton, retexts.fixed_of_kind isString (by decide)]
      exact .string isString
  | reference isReference => exact .reference (isReference.map retexts)

theorem Value.map (retexts : Retexts f) {tokens : List Token} {value : SchemaDoc.Value}
    (isValue : Value tokens value)
    : Value (tokens.map f) value := by
  cases isValue with
  | string isString =>
      rw [List.map_singleton, retexts.fixed_of_kind isString (by decide)]
      exact .string isString
  | number isNumber reads =>
      rw [List.map_singleton, retexts.fixed_of_kind isNumber (by decide)]
      exact .number isNumber reads
  | boolean isBoolean =>
      rw [List.map_singleton, retexts.fixed_of_kind isBoolean (by decide)]
      exact .boolean isBoolean
  | list opens items closes =>
      rw [List.map_append, List.map_cons, List.map_singleton,
        retexts.fixed_of_kind opens (by decide), retexts.fixed_of_kind closes (by decide)]
      exact .list opens (items.map retexts (Item.map retexts)) closes
  | name isReference => exact .name (isReference.map retexts)
  | call isReference => exact .call (isReference.map retexts)

theorem Argument.map (retexts : Retexts f) {tokens : List Token} {argument : SchemaDoc.Argument}
    (isArgument : Argument tokens argument)
    : Argument (tokens.map f) argument := by
  cases isArgument with
  | positional isValue =>
      rw [← retexts.fullSpan_map]
      exact .positional (isValue.map retexts)
  | named isWord isColon isValue =>
      rw [← retexts.fullSpan_map, List.map_cons, List.map_cons,
        retexts.fixed_of_isWord isWord, retexts.fixed_of_kind isColon (by decide)]
      exact .named isWord isColon (isValue.map retexts)

theorem Arguments.map (retexts : Retexts f) {tokens : List Token}
    {arguments : List SchemaDoc.Argument} (areArguments : Arguments tokens arguments)
    : Arguments (tokens.map f) arguments := by
  cases areArguments with
  | absent => exact .absent
  | present opens items closes =>
      rw [List.map_append, List.map_cons, List.map_singleton,
        retexts.fixed_of_kind opens (by decide), retexts.fixed_of_kind closes (by decide)]
      exact .present opens (items.map retexts (Argument.map retexts)) closes

theorem Attribute.map (retexts : Retexts f) {tokens : List Token} {a : SchemaDoc.Attribute}
    (isAttribute : Attribute tokens a)
    : Attribute (tokens.map f) a := by
  obtain ⟨isName, areArguments⟩ := isAttribute
  rw [← retexts.lastSpan_map, List.map_append]
  exact .mk (isName.map retexts) (areArguments.map retexts)

-----------------------------------------------------------------------------------------
-- Members and ignored blocks
-----------------------------------------------------------------------------------------

theorem TypeName.map (retexts : Retexts f) {tokens : List Token} {type : FieldType}
    (isType : TypeName tokens type)
    : TypeName (tokens.map f) type := by
  cases isType with
  | name isWord =>
      rw [List.map_singleton, retexts.fixed_of_isWord isWord]
      exact .name isWord
  | unsupported isWord isUnsupported opens isString closes =>
      rw [List.map_cons, List.map_cons, List.map_cons, List.map_singleton,
        retexts.fixed_of_isWord isWord, retexts.fixed_of_kind opens (by decide),
        retexts.fixed_of_kind isString (by decide), retexts.fixed_of_kind closes (by decide)]
      exact .unsupported isWord isUnsupported opens isString closes

theorem ListMark.map (retexts : Retexts f) {tokens : List Token} {isList : Bool}
    (isMark : ListMark tokens isList)
    : ListMark (tokens.map f) isList := by
  cases isMark with
  | absent => exact .absent
  | present opens closes =>
      rw [List.map_cons, List.map_singleton, retexts.fixed_of_kind opens (by decide),
        retexts.fixed_of_kind closes (by decide)]
      exact .present opens closes

theorem OptionalMark.map (retexts : Retexts f) {tokens : List Token} {isOptional : Bool}
    (isMark : OptionalMark tokens isOptional)
    : OptionalMark (tokens.map f) isOptional := by
  cases isMark with
  | absent => exact .absent
  | present isQuestion =>
      rw [List.map_singleton, retexts.fixed_of_kind isQuestion (by decide)]
      exact .present isQuestion

theorem Field.map (retexts : Retexts f) {tokens : List Token} {field : SchemaDoc.Field}
    (isField : Field tokens field)
    : Field (tokens.map f) field := by
  obtain ⟨isWord, isType, isListMark, isOptionalMark, areAttributes, split⟩ := isField
  rw [← retexts.fullSpan_map]
  have marked := areAttributes.map (Marked.map retexts (by decide) (Attribute.map retexts))
  refine .mk isWord (isType.map retexts) (isListMark.map retexts) (isOptionalMark.map retexts)
    marked ?_
  rw [split, List.map_cons, List.map_append, List.map_append, List.map_append,
    retexts.fixed_of_isWord isWord]

theorem EnumValue.map (retexts : Retexts f) {tokens : List Token} {value : SchemaDoc.EnumValue}
    (isValue : EnumValue tokens value)
    : EnumValue (tokens.map f) value := by
  obtain ⟨isWord, areAttributes⟩ := isValue
  have marked := areAttributes.map (Marked.map retexts (by decide) (Attribute.map retexts))
  rw [List.map_cons, retexts.fixed_of_isWord isWord]
  exact .mk isWord marked

theorem IgnoredBlock.map (retexts : Retexts f) {tokens : List Token}
    (isIgnored : IgnoredBlock tokens)
    : IgnoredBlock (tokens.map f) := by
  obtain @⟨first, name, _, isKeyword, isWord, isGroup⟩ := isIgnored
  rw [← retexts.kind first] at isKeyword
  rw [List.map_cons, List.map_cons, retexts.fixed_of_isWord isWord]
  exact .mk isKeyword isWord (isGroup.map retexts)

end SchemaDoc.Grammar
