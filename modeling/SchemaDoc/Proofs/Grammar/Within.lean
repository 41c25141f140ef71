import SchemaDoc.Proofs.Grammar.Around
import SchemaDoc.Proofs.Grammar.Occurrence

/-! Attributes and their arguments among the tokens of a text.
What is derived from a list of tokens is made up of what is derived from stretches of it, so every
attribute of a declaration is found between the tokens around the declaration.
-/

namespace SchemaDoc.Grammar

open Production (Member)

-----------------------------------------------------------------------------------------
-- Stretches of tokens
-----------------------------------------------------------------------------------------

section Within

variable {α β : Type} {part : List Token → α → Prop} {other : List Token → β → Prop}
  {tokens inner : List Token} {x : α} {y : β} {xs : List α}

/-- Something is derived from a stretch of the tokens. -/
def Within (part : List Token → α → Prop) (tokens : List Token) (x : α) : Prop :=
  ∃ inner, inner <:+: tokens ∧ part inner x

theorem Within.widen (within : Within part inner x) (isInfix : inner <:+: tokens)
    : Within part tokens x := by
  obtain ⟨innermost, isInside, isPart⟩ := within
  exact ⟨innermost, isInside.trans isInfix, isPart⟩

theorem Within.trans (within : Within other tokens y)
    (inside : ∀ {inner}, other inner y → Within part inner x)
    : Within part tokens x := by
  obtain ⟨inner, isInside, isOther⟩ := within
  exact (inside isOther).widen isInside

theorem Marked.within {mark : TokenKind} (isMarked : Marked mark part tokens x)
    : Within part tokens x := by
  obtain ⟨-, isPart⟩ := isMarked
  exact ⟨_, (List.suffix_cons _ _).isInfix, isPart⟩

theorem Sequence.within (parts : Sequence part tokens xs) : ∀ x ∈ xs, Within part tokens x := by
  induction parts with
  | nil => simp
  | @cons tokens rest x xs head _ ih =>
      refine List.forall_mem_cons.mpr ⟨⟨tokens, List.infix_append [] tokens rest, head⟩, ?_⟩
      exact fun y isMember => (ih y isMember).widen (List.suffix_append tokens rest).isInfix

theorem Separated.within (items : Separated part tokens xs) : ∀ x ∈ xs, Within part tokens x := by
  induction items with
  | nil => simp
  | @last tokens x head =>
      exact List.forall_mem_singleton.mpr ⟨tokens, List.infix_refl tokens, head⟩
  | @cons tokens rest x xs comma head _ _ ih =>
      refine List.forall_mem_cons.mpr ⟨⟨tokens, List.infix_append [] tokens _, head⟩, ?_⟩
      have isBehind : rest <:+: tokens ++ comma :: rest :=
        ((List.suffix_cons comma rest).trans (List.suffix_append tokens _)).isInfix
      exact fun y isMember => (ih y isMember).widen isBehind

end Within

-----------------------------------------------------------------------------------------
-- Arguments
-----------------------------------------------------------------------------------------

variable {tokens : List Token}

/-- An argument of an attribute stands among its tokens. -/
theorem Attribute.within_arguments {a : SchemaDoc.Attribute} (isAttribute : Attribute tokens a)
    : ∀ argument ∈ a.arguments, Within Argument tokens argument := by
  obtain @⟨name, back, _, _, -, areArguments⟩ := isAttribute
  cases areArguments with
  | absent => simp
  | @present first last tokens _ _ items =>
      intro argument isMember
      have isInside : tokens <:+: name ++ (first :: tokens ++ [last]) :=
        (List.infix_append [first] tokens [last]).trans (List.suffix_append name _).isInfix
      exact (items.within argument isMember).widen isInside

theorem Name.getLast?_isWord {name : Ident} {last : Token} (isName : Name tokens name)
    (isLast : tokens.getLast? = some last)
    : last.isWord = true := by
  cases isName with
  | word isWord =>
      obtain rfl := Option.some.inj isLast
      exact isWord
  | dotted _ _ isWord =>
      simp only [List.getLast?_append_cons, List.getLast?_cons_cons, List.getLast?_singleton,
        Option.some.injEq] at isLast
      exact isLast ▸ isWord

/-- The value that a single token of a string or a number stands for. -/
inductive Literal (token : Token) : SchemaDoc.Value → Prop
  | string (isString : token.kind = .string) : Literal token (.string token.text)
  | number {x} (isNumber : token.kind = .number)
    (reads : Binary64.readLongest? token.text.toList = some x)
    : Literal token (.number x)

theorem Literal.eq_string {token : Token} {value : SchemaDoc.Value} (literal : Literal token value)
    (isString : token.kind = .string)
    : value = .string token.text := by
  cases literal with
  | string => rfl
  | number isNumber => exact absurd (isNumber.symm.trans isString) (by decide)

theorem Literal.eq_number {token : Token} {value : SchemaDoc.Value} (literal : Literal token value)
    (isNumber : token.kind = .number) {x : Binary64}
    (reads : Binary64.readLongest? token.text.toList = some x)
    : value = .number x := by
  cases literal with
  | string isString => exact absurd (isString.symm.trans isNumber) (by decide)
  | number _ reads' => rw [Option.some.inj (reads'.symm.trans reads)]

/-- A value whose last token is a string or a number is that literal, since a list and a call end in
a token of their own.
-/
theorem Value.literal {value : SchemaDoc.Value} {last : Token} (isValue : Value tokens value)
    (isLast : tokens.getLast? = some last) (isLiteral : last.kind = .string ∨ last.kind = .number)
    : Literal last value := by
  have isOther {kind : TokenKind} (isKind : last.kind = kind)
      (differs : kind ≠ .string ∧ kind ≠ .number)
      : Literal last value :=
    (isLiteral.elim (isKind ▸ differs.1) (isKind ▸ differs.2)).elim
  cases isValue with
  | string isString =>
      obtain rfl := Option.some.inj isLast
      exact .string isString
  | number isNumber reads =>
      obtain rfl := Option.some.inj isLast
      exact .number isNumber reads
  | boolean isBoolean =>
      obtain rfl := Option.some.inj isLast
      exact isOther isBoolean (by decide)
  | list _ _ closes =>
      rw [List.getLast?_concat] at isLast
      obtain rfl := Option.some.inj isLast
      exact isOther closes (by decide)
  | name isReference =>
      cases isReference with
      | name isName =>
          have isWord := isName.getLast?_isWord isLast
          exact isOther rfl ⟨Token.kind_ne_of_isWord isWord rfl, Token.kind_ne_of_isWord isWord rfl⟩
  | call isReference =>
      cases isReference with
      | call _ isGroup =>
          obtain ⟨-, -, closes⟩ := isGroup
          rw [← List.append_assoc, List.getLast?_concat] at isLast
          obtain rfl := Option.some.inj isLast
          exact isOther closes (by decide)

/-- An argument ends where its last token does, and if that is a literal, it is the value. -/
theorem Argument.exists_last {argument : SchemaDoc.Argument}
    (isArgument : Argument tokens argument) (ordered : Token.Ordered tokens)
    : ∃ last,
        tokens.getLast? = some last
        ∧ argument.span.stop = last.span.stop
        ∧ (last.kind = .string ∨ last.kind = .number → Literal last argument.value) := by
  cases isArgument with
  | positional isValue =>
      obtain ⟨first, back, rfl, -⟩ := isValue.uncons
      have isLast := List.getLast?_eq_some_getLast (List.cons_ne_nil first back)
      have stop := congrArg Span.stop (ordered.fullSpan_eq isLast)
      exact ⟨_, isLast, stop, isValue.literal isLast⟩
  | @named name colon tokens value _ _ isValue =>
      obtain ⟨first, back, rfl, -⟩ := isValue.uncons
      have isLast := List.getLast?_eq_some_getLast (List.cons_ne_nil first back)
      have isLast' : (name :: colon :: first :: back).getLast? = _ := isLast
      have stop := congrArg Span.stop (ordered.fullSpan_eq isLast')
      exact ⟨_, isLast', stop, isValue.literal isLast⟩

-----------------------------------------------------------------------------------------
-- Members and declarations
-----------------------------------------------------------------------------------------

theorem Field.within_attributes {field : SchemaDoc.Field} (isField : Field tokens field)
    : ∀ a ∈ field.attributes, Within Attribute tokens a := by
  obtain @⟨word, types, lists, marks, back, _, _, _, _, _, -, -, -, -, areAttributes, rfl⟩ :=
    isField
  have isBehind : back <:+ word :: (types ++ (lists ++ (marks ++ back))) :=
    (List.suffix_append marks back).trans
      ((List.suffix_append lists _).trans
        ((List.suffix_append types _).trans (List.suffix_cons word _)))
  intro a isMember
  exact ((areAttributes.within a isMember).trans Marked.within).widen isBehind.isInfix

theorem EnumValue.within_attributes {value : SchemaDoc.EnumValue}
    (isValue : EnumValue tokens value)
    : ∀ a ∈ value.attributes, Within Attribute tokens a := by
  obtain @⟨word, back, _, -, areAttributes⟩ := isValue
  intro a isMember
  exact ((areAttributes.within a isMember).trans Marked.within).widen
    (List.suffix_cons word back).isInfix

section Entries

variable {α : Type} {member : Member α} {whole : List Token}

/-- Members with attributes that stand among their tokens. -/
structure HasAttributes (member : Member α) (attributes : α → List SchemaDoc.Attribute) : Prop where
  document : ∀ documentation x, attributes (member.document documentation x) = attributes x
  within
    : ∀ {tokens x},
        member.Derives tokens x
        → ∀ a ∈ attributes x, Within Attribute tokens a

theorem hasAttributes_field : HasAttributes Production.fieldMember SchemaDoc.Field.attributes :=
  ⟨fun _ _ => rfl, Field.within_attributes⟩

theorem hasAttributes_enumValue
    : HasAttributes Production.enumValueMember SchemaDoc.EnumValue.attributes :=
  ⟨fun _ _ => rfl, EnumValue.within_attributes⟩

/-- The tokens of an entry stand in front of the last token of all. -/
theorem EntryOccurs.infix_dropLast {entry : SchemaDoc.Entry α}
    (occurs : EntryOccurs member whole entry)
    : ∃ documentation tokens,
        tokens <:+: whole.dropLast ∧ CommentedEntry member documentation tokens entry := by
  obtain @⟨front, previous, comments, tokens, _, rest, _, split, -, -, isEntry, -, -, notAtEnd⟩ :=
    occurs
  have split' : whole
      = ((front ++ previous :: comments) ++ tokens ++ rest.dropLast)
        ++ [rest.getLast notAtEnd] := by
    rw [List.append_assoc, List.dropLast_concat_getLast, split]
    simp
  refine ⟨_, tokens, ?_, isEntry⟩
  rw [split', List.dropLast_concat]
  exact List.infix_append _ tokens rest.dropLast

theorem EntryOccurs.within_member {attributes : α → List SchemaDoc.Attribute}
    (has : HasAttributes member attributes) {x : α} (occurs : EntryOccurs member whole (.member x))
    : ∀ a ∈ attributes x, Within Attribute whole.dropLast a := by
  obtain ⟨documentation, tokens, isInfix, isEntry⟩ := occurs.infix_dropLast
  cases isEntry with
  | member isMember =>
      rw [has.document]
      exact fun a isAttribute => (has.within isMember a isAttribute).widen isInfix

theorem EntryOccurs.within_attribute {a : SchemaDoc.Attribute}
    (occurs : EntryOccurs member whole (.attribute a))
    : Within Attribute whole.dropLast a := by
  obtain ⟨documentation, tokens, isInfix, isEntry⟩ := occurs.infix_dropLast
  cases isEntry with
  | marked isMarked => exact isMarked.within.widen isInfix

end Entries

/-- The attributes of a model and of its fields stand among all tokens. -/
theorem DeclarationOccurs.within_model {whole : List Token} {m : SchemaDoc.Model}
    (occurs : DeclarationOccurs whole (.model m))
    : (∀ a ∈ m.attributes, Within Attribute whole.dropLast a)
      ∧ ∀ field ∈ m.fields, ∀ a ∈ field.attributes, Within Attribute whole.dropLast a := by
  obtain ⟨fields, attributes⟩ := occurs.model
  exact ⟨fun a isAttribute => (attributes a isAttribute).within_attribute,
    fun field isField => (fields field isField).within_member hasAttributes_field⟩

/-- The attributes of an enum and of its values stand among all tokens. -/
theorem DeclarationOccurs.within_enum {whole : List Token} {e : SchemaDoc.Enum}
    (occurs : DeclarationOccurs whole (.enum e))
    : (∀ a ∈ e.attributes, Within Attribute whole.dropLast a)
      ∧ ∀ value ∈ e.values, ∀ a ∈ value.attributes, Within Attribute whole.dropLast a := by
  obtain ⟨values, attributes⟩ := occurs.enum
  exact ⟨fun a isAttribute => (attributes a isAttribute).within_attribute,
    fun value isValue => (values value isValue).within_member hasAttributes_enumValue⟩

end SchemaDoc.Grammar
