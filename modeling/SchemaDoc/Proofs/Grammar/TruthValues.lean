import SchemaDoc.Proofs.Grammar.RenamedDeclarations

/-! Words in the places of truth values.
Wherever a derivation has a truth value it could have a word instead, and every name would be the
same. So it is never a truth value that gives a name.
-/

namespace SchemaDoc

namespace Grammar

open Production (Member)

/-- A change of tokens that puts words in the places of truth values. -/
structure SpellsOut (f : Token → Token) : Prop where
  isWord : ∀ token, token.kind = .boolean → (f token).isWord = true
  fixed : ∀ token, token.kind ≠ .boolean → f token = token

/-- With words for truth values, something is derived that agrees with what was derived. -/
def Keeps {α : Type} (f : Token → Token) (part : List Token → α → Prop) (Agrees : α → α → Prop)
    : Prop :=
  ∀ {tokens x}, part tokens x → ∃ y, part (tokens.map f) y ∧ Agrees x y

/-- Things that have the same names in all places. -/
def SameNames {ι α : Type} (get : ι → α → Option String) (x y : α) : Prop :=
  ∀ slot, get slot x = get slot y

theorem SameNames.getElem? {ι α : Type} {get : ι → α → Option String} {xs ys : List α}
    (agree : List.Forall₂ (SameNames get) xs ys) (i : Nat) (slot : ι)
    : xs[i]?.bind (get slot) = ys[i]?.bind (get slot) := by
  induction agree generalizing i with
  | nil => rfl
  | cons head _ ih =>
      cases i with
      | zero => exact head slot
      | succ i => exact ih i

-----------------------------------------------------------------------------------------
-- Repetition, separation and nesting
-----------------------------------------------------------------------------------------

variable {f : Token → Token}

section Parts

variable {α : Type} {part : List Token → α → Prop} {Agrees : α → α → Prop}

theorem Keeps.sequence (keeps : Keeps f part Agrees)
    : Keeps f (Sequence part) (List.Forall₂ Agrees) := by
  intro tokens xs areParts
  induction areParts with
  | nil => exact ⟨[], .nil, .nil⟩
  | cons head _ ih =>
      obtain ⟨y, isPart, agrees⟩ := keeps head
      obtain ⟨ys, areParts, agree⟩ := ih
      rw [List.map_append]
      exact ⟨y :: ys, .cons isPart areParts, .cons agrees agree⟩

variable (spells : SpellsOut f)

include spells

theorem SpellsOut.fixed_of_kind {kind : TokenKind} {token : Token} (isKind : token.kind = kind)
    (isOther : kind ≠ .boolean)
    : f token = token :=
  spells.fixed token (isKind ▸ isOther)

theorem SpellsOut.fixed_of_isWord {token : Token} (isWord : token.isWord = true)
    : f token = token :=
  spells.fixed token (Token.kind_ne_of_isWord isWord rfl)

theorem Keeps.separated (keeps : Keeps f part Agrees)
    : Keeps f (Separated part) (List.Forall₂ Agrees) := by
  intro tokens xs areItems
  induction areItems with
  | nil => exact ⟨[], .nil, .nil⟩
  | last head =>
      obtain ⟨y, isPart, agrees⟩ := keeps head
      exact ⟨[y], .last isPart, .cons agrees .nil⟩
  | cons head isComma _ ih =>
      obtain ⟨y, isPart, agrees⟩ := keeps head
      obtain ⟨ys, areItems, agree⟩ := ih
      rw [List.map_append, List.map_cons, spells.fixed_of_kind isComma (by decide)]
      exact ⟨y :: ys, .cons isPart isComma areItems, .cons agrees agree⟩

theorem Keeps.marked (keeps : Keeps f part Agrees) {mark : TokenKind} (isOther : mark ≠ .boolean)
    : Keeps f (Marked mark part) Agrees := by
  rintro _ x ⟨isMark, isPart⟩
  obtain ⟨y, isPart, agrees⟩ := keeps isPart
  rw [List.map_cons, spells.fixed_of_kind isMark isOther]
  exact ⟨y, .mk isMark isPart, agrees⟩

end Parts

section Tokens

variable (spells : SpellsOut f)

include spells

theorem Balanced.spellOut {opening closing : TokenKind} (opens : opening.isWord = false)
    (closes : closing.isWord = false) {tokens : List Token}
    (balanced : Balanced opening closing tokens)
    (isOther : opening ≠ .boolean ∧ closing ≠ .boolean)
    : Balanced opening closing (tokens.map f) := by
  induction balanced with
  | nil => exact .nil
  | @other token rest notOpening notClosing _ ih =>
      rw [List.map_cons]
      by_cases isBoolean : token.kind = .boolean
      · have isWord := spells.isWord token isBoolean
        exact .other (Token.kind_ne_of_isWord isWord opens) (Token.kind_ne_of_isWord isWord closes)
          ih
      · rw [spells.fixed token isBoolean]
        exact .other notOpening notClosing ih
  | group isOpening _ isClosing _ within behind =>
      rw [List.map_append, List.map_cons, List.map_cons, spells.fixed_of_kind isOpening isOther.1,
        spells.fixed_of_kind isClosing isOther.2]
      exact .group isOpening within isClosing behind

theorem Group.spellOut {opening closing : TokenKind} (opens : opening.isWord = false)
    (closes : closing.isWord = false) (isOther : opening ≠ .boolean ∧ closing ≠ .boolean)
    {tokens : List Token} (isGroup : Group opening closing tokens)
    : Group opening closing (tokens.map f) := by
  obtain ⟨isOpening, within, isClosing⟩ := isGroup
  rw [List.map_append, List.map_cons, List.map_singleton, spells.fixed_of_kind isOpening isOther.1,
    spells.fixed_of_kind isClosing isOther.2]
  exact .mk isOpening (within.spellOut spells opens closes isOther) isClosing

-----------------------------------------------------------------------------------------
-- Attributes
-----------------------------------------------------------------------------------------

theorem Name.map_eq {tokens : List Token} {name : Ident} (isName : Name tokens name)
    : tokens.map f = tokens := by
  induction isName with
  | word isWord => rw [List.map_singleton, spells.fixed_of_isWord isWord]
  | dotted _ isDot isWord ih =>
      rw [List.map_append, ih, List.map_cons, List.map_singleton,
        spells.fixed_of_kind isDot (by decide), spells.fixed_of_isWord isWord]

theorem keeps_reference : Keeps f Reference Eq := by
  rintro tokens x (isName | ⟨isName, isGroup⟩)
  · rw [isName.map_eq spells]
    exact ⟨_, .name isName, rfl⟩
  · rw [List.map_append, isName.map_eq spells]
    exact ⟨_, .call isName (isGroup.spellOut spells rfl rfl (by decide)), rfl⟩

theorem keeps_item : Keeps f Item Eq := by
  rintro tokens x (isString | isReference)
  · rw [List.map_singleton, spells.fixed_of_kind isString (by decide)]
    exact ⟨_, .string isString, rfl⟩
  · obtain ⟨_, isReference, rfl⟩ := keeps_reference spells isReference
    exact ⟨_, .reference isReference, rfl⟩

/-- A value can be given by a word in the place of a truth value. -/
theorem keeps_value : Keeps f Value fun _ _ => True := by
  intro tokens x isValue
  cases isValue with
  | string isString =>
      rw [List.map_singleton, spells.fixed_of_kind isString (by decide)]
      exact ⟨_, .string isString, trivial⟩
  | number isNumber reads =>
      rw [List.map_singleton, spells.fixed_of_kind isNumber (by decide)]
      exact ⟨_, .number isNumber reads, trivial⟩
  | boolean isBoolean => exact ⟨_, .name (.name (.word (spells.isWord _ isBoolean))), trivial⟩
  | list opens items closes =>
      obtain ⟨names, items, -⟩ := Keeps.separated spells (keeps_item spells) items
      rw [List.map_append, List.map_cons, List.map_singleton,
        spells.fixed_of_kind opens (by decide), spells.fixed_of_kind closes (by decide)]
      exact ⟨_, .list opens items closes, trivial⟩
  | name isReference =>
      obtain ⟨_, isReference, rfl⟩ := keeps_reference spells isReference
      exact ⟨_, .name isReference, trivial⟩
  | call isReference =>
      obtain ⟨_, isReference, rfl⟩ := keeps_reference spells isReference
      exact ⟨_, .call isReference, trivial⟩

theorem keeps_argument
    : Keeps f Argument fun a b => a.name.map Ident.name = b.name.map Ident.name := by
  intro tokens x isArgument
  cases isArgument with
  | positional isValue =>
      obtain ⟨_, isValue, -⟩ := keeps_value spells isValue
      exact ⟨_, .positional isValue, rfl⟩
  | named isWord isColon isValue =>
      obtain ⟨_, isValue, -⟩ := keeps_value spells isValue
      rw [List.map_cons, List.map_cons, spells.fixed_of_isWord isWord,
        spells.fixed_of_kind isColon (by decide)]
      exact ⟨_, .named isWord isColon isValue, rfl⟩

theorem keeps_arguments
    : Keeps f Arguments
        (List.Forall₂ fun a b => a.name.map Ident.name = b.name.map Ident.name) := by
  intro tokens x areArguments
  cases areArguments with
  | absent => exact ⟨[], .absent, .nil⟩
  | present opens items closes =>
      obtain ⟨_, items, agree⟩ := Keeps.separated spells (keeps_argument spells) items
      rw [List.map_append, List.map_cons, List.map_singleton,
        spells.fixed_of_kind opens (by decide), spells.fixed_of_kind closes (by decide)]
      exact ⟨_, .present opens items closes, agree⟩

theorem keeps_attribute : Keeps f Attribute (SameNames fun slot a => a.nameAt slot) := by
  rintro _ _ ⟨isName, areArguments⟩
  obtain ⟨_, areArguments, agree⟩ := keeps_arguments spells areArguments
  rw [List.map_append, isName.map_eq spells]
  refine ⟨_, .mk isName areArguments, fun slot => ?_⟩
  cases slot with
  | segment i => rfl
  | argument i =>
      have same := agree.imp fun a b same => fun _ : Unit => same
      exact SameNames.getElem? same i ()

theorem keeps_attributes {mark : TokenKind} (isOther : mark ≠ .boolean)
    : Keeps f (Sequence (Marked mark Attribute))
        (List.Forall₂ (SameNames fun slot a => a.nameAt slot)) :=
  Keeps.sequence (Keeps.marked spells (keeps_attribute spells) isOther)

-----------------------------------------------------------------------------------------
-- Members of blocks
-----------------------------------------------------------------------------------------

theorem TypeName.map_eq {tokens : List Token} {type : FieldType} (isType : TypeName tokens type)
    : tokens.map f = tokens := by
  cases isType with
  | name isWord => rw [List.map_singleton, spells.fixed_of_isWord isWord]
  | unsupported isWord _ opens isString closes =>
      rw [List.map_cons, List.map_cons, List.map_cons, List.map_singleton,
        spells.fixed_of_isWord isWord, spells.fixed_of_kind opens (by decide),
        spells.fixed_of_kind isString (by decide), spells.fixed_of_kind closes (by decide)]

theorem ListMark.map_eq {tokens : List Token} {isList : Bool} (isMark : ListMark tokens isList)
    : tokens.map f = tokens := by
  cases isMark with
  | absent => rfl
  | present opens closes =>
      rw [List.map_cons, List.map_singleton, spells.fixed_of_kind opens (by decide),
        spells.fixed_of_kind closes (by decide)]

theorem OptionalMark.map_eq {tokens : List Token} {isOptional : Bool}
    (isMark : OptionalMark tokens isOptional)
    : tokens.map f = tokens := by
  cases isMark with
  | absent => rfl
  | present isQuestion =>
      rw [List.map_singleton, spells.fixed_of_kind isQuestion (by decide)]

theorem keeps_field : Keeps f Field (SameNames fun slot field => field.nameAt slot) := by
  rintro _ _ @⟨word, types, lists, marks, back, type, isList, isOptional, attributes, _,
    isWord, isType, isListMark, isOptionalMark, areAttributes, rfl⟩
  obtain ⟨_, areAttributes, agree⟩ := keeps_attributes spells (by decide) areAttributes
  rw [List.map_cons, List.map_append, List.map_append, List.map_append,
    spells.fixed_of_isWord isWord, isType.map_eq spells, isListMark.map_eq spells,
    isOptionalMark.map_eq spells]
  refine ⟨_, .mk isWord isType isListMark isOptionalMark areAttributes rfl, fun slot => ?_⟩
  cases slot with
  | name | type => rfl
  | attributes i slot => exact SameNames.getElem? agree i slot

theorem keeps_enumValue : Keeps f EnumValue (SameNames fun slot value => value.nameAt slot) := by
  rintro _ _ ⟨isWord, areAttributes⟩
  obtain ⟨_, areAttributes, agree⟩ := keeps_attributes spells (by decide) areAttributes
  rw [List.map_cons, spells.fixed_of_isWord isWord]
  refine ⟨_, .mk isWord areAttributes, fun slot => ?_⟩
  cases slot with
  | name | type => rfl
  | attributes i slot => exact SameNames.getElem? agree i slot

-----------------------------------------------------------------------------------------
-- Entries
-----------------------------------------------------------------------------------------

theorem SpellsOut.map_comments {comments : List Token}
    (areComments : ∀ c ∈ comments, c.kind = .docComment)
    : comments.map f = comments := by
  refine (List.map_congr_left fun c isMember => ?_).trans (List.map_id comments)
  exact spells.fixed_of_kind (areComments c isMember) (by decide)

section Entries

variable {α : Type} {member : Member α} {get : MemberSlot → α → Option String}
  {rename : MemberSlot → String → α → α}

/-- Entries that have the same names, both as members and as attributes. -/
structure SameEntry (get : MemberSlot → α → Option String) (x y : SchemaDoc.Entry α) : Prop where
  members : Option.Rel (SameNames get) x.member? y.member?
  attributes : Option.Rel (SameNames fun slot a => a.nameAt slot) x.attribute? y.attribute?

/-- What documents a member is not among its names. -/
theorem keeps_entry (renames : ∀ slot, RenamesMember member (get slot) (rename slot))
    (keeps : Keeps f member.Derives (SameNames get))
    (documentation documentation' : Option Documentation) {tokens : List Token}
    {entry : SchemaDoc.Entry α} (isEntry : CommentedEntry member documentation tokens entry)
    : ∃ entry',
        CommentedEntry member documentation' (tokens.map f) entry'
        ∧ SameEntry get entry entry' := by
  cases isEntry with
  | @member x isMember =>
      obtain ⟨y, isMember, same⟩ := keeps isMember
      refine ⟨_, .member isMember, .some fun slot => ?_, .none⟩
      rw [(renames slot).get_document, (renames slot).get_document]
      exact same slot
  | marked isAttribute =>
      obtain ⟨b, isAttribute, same⟩ :=
        Keeps.marked spells (keeps_attribute spells) (by decide) isAttribute
      exact ⟨_, .marked isAttribute, .none, .some same⟩

theorem keeps_entries (renames : ∀ slot, RenamesMember member (get slot) (rename slot))
    (keeps : Keeps f member.Derives (SameNames get)) {previous : Token} {tokens : List Token}
    {entries : List (SchemaDoc.Entry α)}
    (areEntries : CommentedEntries member previous tokens entries) (previous' : Token)
    : ∃ entries',
        CommentedEntries member previous' (tokens.map f) entries'
        ∧ List.Forall₂ (SameEntry get) entries entries' := by
  induction areEntries generalizing previous' with
  | done areComments =>
      rw [spells.map_comments areComments]
      exact ⟨[], .done areComments, .nil⟩
  | @entry _ comments tokens last rest entry entries areComments isEntry isLast _ ih =>
      obtain ⟨entries', behind, agree⟩ := ih (f last)
      obtain ⟨entry', isEntry, same⟩ := keeps_entry spells renames keeps _
        (Documentation.extend? (Documentation.ofTokens? (leading previous' comments))
          (trailing? (f last) (rest.map f))) isEntry
      rw [List.map_append, List.map_append, spells.map_comments areComments]
      exact ⟨entry' :: entries', .entry areComments isEntry (by simp [isLast]) behind,
        .cons same agree⟩

theorem keeps_block (renames : ∀ slot, RenamesMember member (get slot) (rename slot))
    (keeps : Keeps f member.Derives (SameNames get)) {keyword : TokenKind}
    (isOther : keyword ≠ .boolean)
    : Keeps f (Holds keyword member) (SameNames (Contents.nameAt get)) := by
  rintro tokens ⟨name, _, _, span⟩ ⟨entries, isBlock, rfl, rfl⟩
  obtain @⟨first, name, opening, _, last, _, isKeyword, isWord, opens, areEntries, closes⟩ :=
    isBlock
  obtain ⟨entries', areEntries, agree⟩ := keeps_entries spells renames keeps areEntries opening
  rw [List.map_cons, List.map_cons, List.map_cons, List.map_append, List.map_singleton,
    spells.fixed_of_kind isKeyword isOther, spells.fixed_of_isWord isWord,
    spells.fixed_of_kind opens (by decide), spells.fixed_of_kind closes (by decide)]
  refine ⟨⟨_, _, _, _⟩, ⟨entries', .mk isKeyword isWord opens areEntries closes, rfl, rfl⟩,
    fun slot => ?_⟩
  cases slot with
  | name => rfl
  | member i slot =>
      exact SameNames.getElem? (List.rel_filterMap (fun _ _ same => same.members) agree) i slot
  | attributes i slot =>
      exact SameNames.getElem? (List.rel_filterMap (fun _ _ same => same.attributes) agree) i slot

end Entries

-----------------------------------------------------------------------------------------
-- Declarations
-----------------------------------------------------------------------------------------

/-- Declarations that have the same names, as models and as enums. -/
structure SameDeclaration (x y : SchemaDoc.Declaration) : Prop where
  models : Option.Rel (SameNames fun slot m => m.nameAt slot) x.model? y.model?
  enums : Option.Rel (SameNames fun slot e => e.nameAt slot) x.enum? y.enum?

theorem keeps_declaration (documentation : Option Documentation)
    : Keeps f (CommentedDeclaration documentation) SameDeclaration := by
  intro tokens d isDeclaration
  cases isDeclaration with
  | model isBlock =>
      obtain ⟨contents, ⟨entries', isBlock, members, attributes⟩, same⟩ :=
        keeps_block spells renamesMember_field (keeps_field spells) (by decide) isBlock.holds
      refine ⟨_, .model isBlock, .some fun slot => ?_, .none⟩
      have sameName := same slot
      rw [← members, ← attributes]
      cases slot <;> exact sameName
  | enum isBlock =>
      obtain ⟨contents, ⟨entries', isBlock, members, attributes⟩, same⟩ :=
        keeps_block spells renamesMember_enumValue (keeps_enumValue spells) (by decide)
          isBlock.holds
      refine ⟨_, .enum isBlock, .none, .some fun slot => ?_⟩
      have sameName := same slot
      rw [← members, ← attributes]
      cases slot <;> exact sameName
  | ignored isIgnored =>
      obtain ⟨isKeyword, isWord, isGroup⟩ := isIgnored
      have notBoolean {kind : TokenKind} (isKeyword : kind = .datasource ∨ kind = .generator)
          : kind ≠ .boolean := by
        rcases isKeyword with rfl | rfl <;> decide
      rw [List.map_cons, List.map_cons, spells.fixed _ (notBoolean isKeyword),
        spells.fixed_of_isWord isWord]
      exact ⟨_, .ignored (.mk isKeyword isWord (isGroup.spellOut spells rfl rfl (by decide))),
        .none, .none⟩

theorem keeps_declarations : Keeps f CommentedDeclarations (List.Forall₂ SameDeclaration) := by
  intro tokens ds areDeclarations
  induction areDeclarations with
  | done areComments =>
      rw [spells.map_comments areComments]
      exact ⟨[], .done areComments, .nil⟩
  | declaration areComments isDeclaration _ ih =>
      obtain ⟨d, isDeclaration, same⟩ := keeps_declaration spells _ isDeclaration
      obtain ⟨ds, behind, agree⟩ := ih
      rw [List.map_append, List.map_append, spells.map_comments areComments]
      exact ⟨d :: ds, .declaration areComments isDeclaration behind, .cons same agree⟩

/-- With words for its truth values, a schema has the same names. -/
theorem keeps_schema : Keeps f ReadAs (SameNames fun slot s => s.nameAt slot) := by
  rintro tokens _ ⟨ds, areDeclarations, rfl⟩
  obtain ⟨ds', areDeclarations, agree⟩ := keeps_declarations spells areDeclarations
  refine ⟨_, ⟨ds', areDeclarations, rfl⟩, fun slot => ?_⟩
  cases slot with
  | model i slot =>
      exact SameNames.getElem? (List.rel_filterMap (fun _ _ same => same.models) agree) i slot
  | enum i slot =>
      exact SameNames.getElem? (List.rel_filterMap (fun _ _ same => same.enums) agree) i slot

end Tokens

-----------------------------------------------------------------------------------------
-- Truth values in the places of names
-----------------------------------------------------------------------------------------

/-- What is read from tokens is one schema only. -/
theorem ReadAs.unique {tokens : List Token} {schema schema' : SchemaDoc.Schema}
    (isRead : ReadAs tokens schema) (areProper : ∀ token ∈ tokens, token.IsProper)
    (isRead' : ReadAs tokens schema')
    : schema = schema' := by
  rw [← Token.beforeEnd_of_proper areProper] at isRead isRead'
  have read : Schema.ofTokens tokens 0 = .ok schema := Schema.ofTokens_eq_ok.mpr isRead
  have read' : Schema.ofTokens tokens 0 = .ok schema' := Schema.ofTokens_eq_ok.mpr isRead'
  exact Except.ok.inj (read.symm.trans read')

theorem isProper_of_isWord {token : Token} (isWord : token.isWord = true) : token.IsProper := by
  refine ⟨?_, Token.kind_ne_of_isWord isWord rfl⟩
  rw [Token.isWord] at isWord
  rw [Token.isTrivia]
  cases kind : token.kind <;> simp_all [TokenKind.isTrivia, TokenKind.isWord]

/-- A token with the text given that can name things. -/
def naming (text : String) (token : Token) : Token :=
  { token with
    kind := .identifier
    text }

theorem spellsOut_naming (text : String) (token : Token)
    : SpellsOut fun t => if t.kind = .boolean then naming text token else t where
  isWord t isBoolean := by rw [if_pos isBoolean]; rfl
  fixed t isOther := if_neg isOther

section Refusal

variable {schema : SchemaDoc.Schema} {slot : SchemaSlot} {front back : List Token}
  {token other : Token}
  (canName : token.isWord = true) (found : (schema.nameAt slot).isSome = true)
  (replace
    : ∀ other,
        TakesPlace token other
        → ReadAs (front ++ other :: back) (schema.rename slot other.text))
  (areProper : ∀ t ∈ front ++ token :: back, t.IsProper) (isBoolean : other.kind = .boolean)

include canName found replace areProper isBoolean

/-- With a truth value for a name, every word would be the name: the word could be put there in two
ways, for the truth value and for the name, and both are read alike.
-/
theorem nameAt_eq_of_readAs {schema' : SchemaDoc.Schema}
    (isRead : ReadAs (front ++ other :: back) schema') {text : String} (noDot : '.' ∉ text.toList)
    : schema'.nameAt slot = some text := by
  let f (t : Token) : Token := if t.kind = .boolean then naming text token else t
  have spells : SpellsOut f := spellsOut_naming text token
  obtain ⟨s, readNamed, sameNames⟩ :=
    keeps_schema spells (replace (naming text token) ⟨canName, rfl, rfl, rfl⟩)
  obtain ⟨s', readOther, sameNames'⟩ := keeps_schema spells isRead
  have named : f (naming text token) = f other := by
    rw [show f other = naming text token from if_pos isBoolean]
    exact if_neg (by simp [naming])
  have same : (front ++ naming text token :: back).map f = (front ++ other :: back).map f := by
    rw [List.map_append, List.map_append, List.map_cons, List.map_cons, named]
  have proper : ∀ t ∈ (front ++ other :: back).map f, t.IsProper := by
    intro _ isMember
    obtain ⟨t, isOne, rfl⟩ := List.mem_map.mp isMember
    by_cases isTruthValue : t.kind = .boolean
    · exact isProper_of_isWord (spells.isWord t isTruthValue)
    · have notOther : t ≠ other := fun same => isTruthValue (same ▸ isBoolean)
      rw [spells.fixed t isTruthValue]
      refine areProper t ?_
      rw [List.mem_append, List.mem_cons] at isOne ⊢
      exact isOne.imp_right fun isBehind => .inr (isBehind.resolve_left notOther)
  rw [same] at readNamed
  have isSame : s = s' := readNamed.unique proper readOther
  calc schema'.nameAt slot
    _ = s'.nameAt slot := sameNames' slot
    _ = (schema.rename slot text).nameAt slot := isSame ▸ (sameNames slot).symm
    _ = some text := schema.nameAt_rename noDot slot found

/-- In the place of a name no truth value is read. -/
theorem not_readAs_of_boolean (schema' : SchemaDoc.Schema)
    : ¬ReadAs (front ++ other :: back) schema' := by
  intro isRead
  have isName {text : String} (noDot : '.' ∉ text.toList) : schema'.nameAt slot = some text :=
    nameAt_eq_of_readAs canName found replace areProper isBoolean isRead noDot
  have both := (@isName "a" (by decide)).symm.trans (@isName "b" (by decide))
  exact absurd both (by decide)

end Refusal

end Grammar

end SchemaDoc
