import SchemaDoc.Document.Assembly
import SchemaDoc.Proofs.Grammar.Within
import SchemaDoc.Proofs.Token.Literal

/-! Strings come from a text into a document as they are meant.
A literal is read as one token whatever is escaped in it, and where it is the first argument of
what names a declaration or gives a default, the document shows its string.
-/

namespace SchemaDoc

open Grammar

-----------------------------------------------------------------------------------------
-- Literals as arguments
-----------------------------------------------------------------------------------------

/-- The first attribute of a name has a literal of a string for its first argument: the argument
ends where the literal does, so a name may stand in front of it but nothing behind.
-/
inductive GivesLiteral (text : String) (attributes : List Attribute) (name s : String) : Prop
  | mk {a argument literal} (isFirst : Attribute.find? attributes name = some a)
    (isArgument : a.arguments.head? = some argument) (isLiteral : IsLiteral text s literal)
    (ends : argument.span.stop = literal.stop)
    : GivesLiteral text attributes name s

/-- An attribute that stands among the tokens of a text. -/
def Attribute.StandsIn (text : String) (a : Attribute) : Prop :=
  Within Grammar.Attribute (Token.beforeEnd (tokenize text)) a

theorem IsLiteral.start_lt {text s : String} {span : Span} (isLiteral : IsLiteral text s span)
    : span.start < span.stop := by
  obtain @⟨before, quote, body, _, _, _, _, _⟩ := isLiteral
  have isPositive := quote.utf8Size_pos
  simp only [String.utf8Len_cons]
  omega

/-- An argument that ends where a token of a string or a number does, with no other token around
that place, has this literal for its value.
-/
theorem Argument.literal_of_stop {text : String} {argument : Argument} {token : Token}
    (within : Within Grammar.Argument (Token.beforeEnd (tokenize text)) argument)
    (isLiteral : token.kind = .string ∨ token.kind = .number)
    (isLong : token.span.start < token.span.stop)
    (alone : ∀ other ∈ tokenize text, other = token ∨ other.span.IsApart token.span)
    (ends : argument.span.stop = token.span.stop)
    : Literal token argument.value := by
  obtain ⟨inner, isInside, isArgument⟩ := within
  have isPart : (Token.beforeEnd (tokenize text)).Sublist (Token.significant (tokenize text)) :=
    List.takeWhile_sublist _
  have ordered := (Token.ordered_tokenize text).sublist (isInside.sublist.trans isPart)
  obtain ⟨last, isLast, stop, isValue⟩ := isArgument.exists_last ordered
  have isMember := isInside.mem (List.mem_of_getLast? isLast)
  have isToken := List.filter_sublist.mem (isPart.mem isMember)
  obtain ⟨-, -, -, proper⟩ := Token.significant_tokenize text
  have lastIsLong := (proper last isMember).2
  rcases alone last isToken with rfl | isBefore | isBehind
  · exact isValue isLiteral
  · omega
  · omega

/-- An argument that ends where a literal of a string does has the string for its value. -/
theorem Argument.value_eq_string {text s : String} {argument : Argument} {literal : Span}
    (within : Within Grammar.Argument (Token.beforeEnd (tokenize text)) argument)
    (isLiteral : IsLiteral text s literal) (ends : argument.span.stop = literal.stop)
    : argument.value = .string s := by
  have isLong := isLiteral.start_lt
  obtain ⟨token, -, isString, rfl, rfl, alone⟩ := isLiteral.token
  exact (Argument.literal_of_stop within (.inl isString) isLong alone ends).eq_string isString

/-- The first argument of the first attribute of a name stands among the tokens of the text. -/
theorem Attribute.within_firstArgument {text name : String} {attributes : List Attribute}
    {a : Attribute} {argument : Argument} (within : ∀ a ∈ attributes, a.StandsIn text)
    (isFirst : Attribute.find? attributes name = some a)
    (isArgument : a.arguments.head? = some argument)
    : Within Grammar.Argument (Token.beforeEnd (tokenize text)) argument
      ∧ (Attribute.find? attributes name).bind Attribute.firstValue? = some argument.value := by
  constructor
  · exact (within a (List.mem_of_find?_eq_some isFirst)).trans fun isAttribute =>
      isAttribute.within_arguments _ (List.mem_of_mem_head? isArgument)
  · rw [isFirst, Option.bind_some, Attribute.firstValue?, isArgument, Option.map_some]

/-- What a literal gives is the text of the first attribute of the name. -/
theorem GivesLiteral.firstValue? {text name s : String} {attributes : List Attribute}
    (gives : GivesLiteral text attributes name s)
    (within : ∀ a ∈ attributes, a.StandsIn text)
    : (Attribute.find? attributes name).bind Attribute.firstValue? = some (.string s) := by
  obtain ⟨isFirst, isArgument, isLiteral, ends⟩ := gives
  obtain ⟨inside, value⟩ := Attribute.within_firstArgument within isFirst isArgument
  rw [value, Argument.value_eq_string inside isLiteral ends]

-----------------------------------------------------------------------------------------
-- Literals in a document
-----------------------------------------------------------------------------------------

/-- A column whose name and default are the strings that literals give for its field. -/
structure Field.IsVerbatim (text : String) (field : Field) (column : Column) : Prop where
  name : ∀ s, GivesLiteral text field.attributes "map" s → column.name = s
  default
    : ∀ s,
        GivesLiteral text field.attributes "default" s
        → column.default = some ("'" ++ s ++ "'")

/-- A table whose name is the string that a literal gives for its model, and so for its columns. -/
structure Model.IsVerbatim (text : String) (lookup : Lookup) (model : Model) (table : Table)
    : Prop where
  name : ∀ s, GivesLiteral text model.attributes "map" s → table.name = s
  columns
    : List.Forall₂ (Field.IsVerbatim text) (model.fields.filter lookup.isColumn) table.columns

/-- An enum whose name is the string that a literal gives for it, and so for its values. -/
structure Enum.IsVerbatim (text : String) (enum : Enum) (enumType : EnumType) : Prop where
  name : ∀ s, GivesLiteral text enum.attributes "map" s → enumType.name = s
  values
    : List.Forall₂
        (fun value stored => ∀ s, GivesLiteral text value.attributes "map" s → stored = s)
        enum.values enumType.values

section Document

variable {text : String}

theorem GivesLiteral.mappedName? {s : String} {attributes : List Attribute}
    (gives : GivesLiteral text attributes "map" s)
    (within : ∀ a ∈ attributes, a.StandsIn text)
    : Attribute.mappedName? attributes = some s := by
  have given := gives.firstValue? within
  obtain ⟨a, isFirst, isValue⟩ := Option.bind_eq_some_iff.mp given
  rw [Attribute.mappedName?, isFirst, Option.bind_some, Attribute.text?, isValue]
  rfl

theorem Field.isVerbatim_toColumn {field : Field}
    (within : ∀ a ∈ field.attributes, a.StandsIn text)
    : field.IsVerbatim text field.toColumn where
  name s gives := by
    rw [toColumn, columnName, mappedName?, gives.mappedName? within]
    rfl
  default s gives := by
    rw [toColumn, renderedDefault?, default?, gives.firstValue? within]
    rfl

theorem Model.isVerbatim_toTable {model : Model} (lookup : Lookup)
    (within : ∀ a ∈ model.attributes, a.StandsIn text)
    (fields
      : ∀ field ∈ model.fields,
          ∀ a ∈ field.attributes, a.StandsIn text)
    : model.IsVerbatim text lookup (model.toTable lookup) where
  name s gives := by
    change Naming.external model.name.name model.mappedName? = s
    rw [mappedName?, gives.mappedName? within]
    rfl
  columns := forall₂_map_self fun field isColumn =>
    field.isVerbatim_toColumn (fields field (List.mem_filter.mp isColumn).1)

theorem Enum.isVerbatim_toEnumType {enum : Enum}
    (within : ∀ a ∈ enum.attributes, a.StandsIn text)
    (values
      : ∀ value ∈ enum.values,
          ∀ a ∈ value.attributes, a.StandsIn text)
    : enum.IsVerbatim text enum.toEnumType where
  name s gives := by
    rw [toEnumType, externalName, mappedName?, gives.mappedName? within]
    rfl
  values := forall₂_map_self fun value isValue s gives => by
    rw [EnumValue.storedName, EnumValue.mappedName?, gives.mappedName? (values value isValue)]
    rfl

theorem attributes_standIn_of_ofText {strict : Bool} {schema : Schema}
    (read : Schema.ofText strict text = .ok schema)
    : (∀ model ∈ schema.models,
        (∀ a ∈ model.attributes, a.StandsIn text)
        ∧ ∀ field ∈ model.fields, ∀ a ∈ field.attributes, a.StandsIn text)
      ∧ ∀ enum ∈ schema.enums,
          (∀ a ∈ enum.attributes, a.StandsIn text)
          ∧ ∀ value ∈ enum.values, ∀ a ∈ value.attributes, a.StandsIn text := by
  obtain ⟨ds, rfl, -, occur⟩ := occur_of_ofText read
  obtain ⟨ending, whole, -, -⟩ := Token.significant_tokenize text
  have front : (Token.significant (tokenize text)).dropLast = Token.beforeEnd (tokenize text) := by
    rw [whole, List.dropLast_concat]
  constructor
  · intro model isModel
    have within := (occur _ (Declaration.mem_models_iff.mp isModel)).within_model
    rwa [front] at within
  · intro enum isEnum
    have within := (occur _ (Declaration.mem_enums_iff.mp isEnum)).within_enum
    rwa [front] at within

end Document

/-- Strings travel verbatim. A literal is read as one token with the string for its text, which
reaches exactly as far as the literal. In a schema that a text is read as, the first argument of the
first attribute that maps a declaration to a name is this name in every document, and that of the
first default of a field is the default of its column, between single quotes.
-/
theorem literals_are_verbatim (text : String)
    : (∀ s literal,
        IsLiteral text s literal
        → ∃ token ∈ tokenize text,
            token.kind = .string
            ∧ token.text = s
            ∧ token.span = literal
            ∧ ∀ other ∈ tokenize text, other = token ∨ other.span.IsApart literal)
      ∧ ∀ strict schema heading,
          Schema.ofText strict text = .ok schema
          → let document := Document.ofSchema heading schema
            List.Forall₂ (Model.IsVerbatim text (.ofSchema schema)) schema.models document.tables
            ∧ List.Forall₂ (Enum.IsVerbatim text) schema.enums document.enums := by
  refine ⟨fun _ _ isLiteral => isLiteral.token, fun strict schema heading read => ?_⟩
  obtain ⟨models, enums⟩ := attributes_standIn_of_ofText read
  constructor
  · exact forall₂_map_self fun model isModel =>
      model.isVerbatim_toTable _ (models model isModel).1 (models model isModel).2
  · exact forall₂_map_self fun enum isEnum =>
      enum.isVerbatim_toEnumType (enums enum isEnum).1 (enums enum isEnum).2

/-- A table is named by a literal with an escaped quote, a line break and a letter of two bytes. -/
theorem literals_are_verbatim_name
    : let text := "model M \x7b @@map('a\\'\né') \x7d"
      let s := "a'\né"
      IsLiteral text s ⟨16, 24⟩
      ∧ (∃ token ∈ tokenize text,
          token.kind = .string ∧ token.text = s ∧ token.span = ⟨16, 24⟩)
      ∧ ∃ schema,
          Schema.ofText true text = .ok schema
          ∧ ∀ heading, (Document.ofSchema heading schema).tables.map Table.name = [s] := by
  intro text s
  have escapes : Escapes '\x27' s.toList ['a', '\\', '\x27', '\n', 'é'] := by
    have spelled : s.toList = ['a', '\x27', '\n', 'é'] := by decide +kernel
    rw [spelled]
    exact .plain (by decide) (by decide) (.escaped (.plain (by decide) (by decide)
      (.plain (by decide) (by decide) .nil)))
  have isLiteral : IsLiteral text s ⟨16, 24⟩ := by
    have split : text.toList = "model M \x7b @@map(".toList
        ++ ('\x27' :: (['a', '\\', '\x27', '\n', 'é'] ++ ['\x27']) ++ ") \x7d".toList) := by
      decide +kernel
    have outside : ∀ token ∈ tokenize text, ¬(token.span.start < 16 ∧ 16 < token.span.stop) := by
      decide +kernel
    exact .mk (.inr rfl) escapes split outside
  obtain ⟨reading, naming⟩ := literals_are_verbatim text
  obtain ⟨token, isToken, isString, spelled, place, -⟩ := reading s _ isLiteral
  refine ⟨isLiteral, ⟨token, isToken, isString, spelled, place⟩, ?_⟩
  have reads : (Schema.ofText true text).toOption.map (fun schema =>
      schema.models.map fun model =>
        ((Attribute.find? model.attributes "map").bind (·.arguments.head?)).map Argument.span)
        = some [some ⟨16, 24⟩] := by
    decide +kernel
  cases read : Schema.ofText true text with
  | error error => simp [read, Except.toOption] at reads
  | ok schema =>
      rw [read] at reads
      obtain ⟨model, isOnly, found⟩ := List.map_eq_singleton_iff.mp (Option.some.inj reads)
      obtain ⟨argument, isArgument, ends⟩ := Option.map_eq_some_iff.mp found
      obtain ⟨a, isFirst, isArgument⟩ := Option.bind_eq_some_iff.mp isArgument
      have gives : GivesLiteral text model.attributes "map" s :=
        .mk isFirst isArgument isLiteral (congrArg Span.stop ends)
      refine ⟨schema, rfl, fun heading => ?_⟩
      obtain ⟨tables, -⟩ := naming true schema heading read
      rw [isOnly] at tables
      obtain ⟨table, none, isVerbatim, isEnd, same⟩ := List.forall₂_cons_left_iff.mp tables
      rw [same, List.forall₂_nil_left_iff.mp isEnd, List.map_singleton, isVerbatim.name s gives]

end SchemaDoc
