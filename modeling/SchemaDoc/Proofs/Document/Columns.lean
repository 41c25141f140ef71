import SchemaDoc.Document.Assembly
import SchemaDoc.Proofs.Schema.Resolution

/-! The tables of a document mirror the models of its schema.
A model has one table, and each of its fields has one column there or none, by its kind. What a
column says is said here from the attributes and marks of its field, without a look-up.
-/

namespace SchemaDoc

-----------------------------------------------------------------------------------------
-- Marks, names and comments
-----------------------------------------------------------------------------------------

/-- A field has an attribute of some name. -/
def Field.IsMarked (field : Field) (mark : String) : Prop :=
  ∃ a ∈ field.attributes, a.name.name = mark

/-- The first attribute of a name has a first argument, which holds a value. -/
def Attribute.Gives (attributes : List Attribute) (name : String) (value : Value) : Prop :=
  ∃ a argument others,
    IsFirst (·.name.name = name) attributes a
    ∧ a.arguments = argument :: others
    ∧ argument.value = value

/-- What a declaration is called in a database: the text that `map` gives it, or its own name in
snake case when there is no such text.
-/
inductive Naming.Calls (declared : String) (attributes : List Attribute) : String → Prop
  | mapped {text} (maps : Attribute.Gives attributes "map" (.string text))
    : Calls declared attributes text
  | folded (unmapped : ∀ text, ¬Attribute.Gives attributes "map" (.string text))
    : Calls declared attributes (snakeCase declared)

/-- The comment that documentation makes: its text, or none at all. -/
inductive Documentation.Comments : Option Documentation → String → Prop
  | documented {documentation} : Comments (some documentation) documentation.text
  | undocumented : Comments none ""

theorem Attribute.occurs_iff {field : Field} {mark : String}
    : occurs field.attributes mark = true ↔ field.IsMarked mark := by
  simp [occurs, isNamed, Field.IsMarked]

theorem Attribute.gives_iff {attributes : List Attribute} {name : String} {value : Value}
    : (find? attributes name).bind firstValue? = some value ↔ Gives attributes name value := by
  simp only [Option.bind_eq_some_iff, find?_eq_some_iff, firstValue?, Option.map_eq_some_iff,
    List.head?_eq_some_iff]
  constructor
  · intro found
    obtain ⟨a, first, argument, ⟨others, split⟩, isValue⟩ := found
    exact ⟨a, argument, others, first, split, isValue⟩
  · intro gives
    obtain ⟨a, argument, others, first, split, isValue⟩ := gives
    exact ⟨a, first, argument, ⟨others, split⟩, isValue⟩

theorem Attribute.mappedName?_eq_some_iff {attributes : List Attribute} {text : String}
    : mappedName? attributes = some text ↔ Gives attributes "map" (.string text) := by
  rw [mappedName?, ← gives_iff]
  cases find? attributes "map" with
  | none => simp
  | some a => simp [text?, Option.bind_eq_some_iff, Value.string?_eq_some_iff]

theorem Naming.calls_external (declared : String) (attributes : List Attribute)
    : Calls declared attributes (external declared (Attribute.mappedName? attributes)) := by
  rw [external]
  cases mapped : Attribute.mappedName? attributes with
  | some text => exact .mapped (Attribute.mappedName?_eq_some_iff.mp mapped)
  | none =>
      refine .folded fun text maps => ?_
      exact Option.eq_none_iff_forall_ne_some.mp mapped text
        (Attribute.mappedName?_eq_some_iff.mpr maps)

theorem Documentation.comments_elim (documentation : Option Documentation)
    : Comments documentation (documentation.elim "" Documentation.text) := by
  cases documentation with
  | none => exact .undocumented
  | some documentation => exact .documented

-----------------------------------------------------------------------------------------
-- Types and defaults
-----------------------------------------------------------------------------------------

/-- The names of the built-in types with the column types they have. -/
def canonicalTypes : List (String × String) :=
  [("String", "VARCHAR"), ("Int", "INTEGER"), ("BigInt", "BIGINT"), ("Float", "FLOAT"),
    ("Decimal", "DECIMAL"), ("DateTime", "DATETIME"), ("Boolean", "BOOLEAN"), ("Json", "JSON"),
    ("Bytes", "BLOB")]

namespace Field

/-- The type of the column of a field. A list is stored as a JSON text, whatever it is a list of,
and a type name that is not built in stays as it is.
-/
inductive HasColumnType (field : Field) : String → Prop
  | list (isList : field.isList = true) : field.HasColumnType "JSON"
  | builtIn {type} (notList : field.isList = false)
    (isBuiltIn : (field.type.name, type) ∈ canonicalTypes)
    : field.HasColumnType type
  | other (notList : field.isList = false)
    (notBuiltIn : ∀ type, (field.type.name, type) ∉ canonicalTypes)
    : field.HasColumnType field.type.name

/-- A field has no default that a column can show: there is no `@default`, or the first one has no
argument, or its first argument is a list.
-/
inductive HasNoDefault (field : Field) : Prop
  | absent (unmarked : ¬field.IsMarked "default")
  | empty {a} (first : IsFirst (·.name.name = "default") field.attributes a)
    (noArgument : a.arguments = [])
  | list {a argument others names} (first : IsFirst (·.name.name = "default") field.attributes a)
    (split : a.arguments = argument :: others) (isList : argument.value = .list names)

theorem hasColumnType_columnType (field : Field)
    : field.HasColumnType (columnType field.type.name field.isList) := by
  rw [columnType]
  cases isList : field.isList with
  | true => exact .list isList
  | false =>
      rw [if_neg Bool.false_ne_true]
      cases found : ScalarType.ofName? field.type.name with
      | none =>
          refine .other isList fun type isBuiltIn => ?_
          have notNamed := List.find?_eq_none.mp found
          simp only [ScalarType.all, List.forall_mem_cons, beq_iff_eq, ScalarType.name] at notNamed
          simp only [canonicalTypes, List.mem_cons, Prod.mk.injEq, List.not_mem_nil] at isBuiltIn
          grind
      | some type =>
          have named : type.name = field.type.name := by
            simpa using List.find?_some found
          refine .builtIn isList ?_
          rw [← named]
          cases type <;> decide

/-- Only a list has no form that a column can show. -/
theorem render?_eq_none_iff {value : Value}
    : value.render? = none ↔ ∃ names, value = .list names := by
  cases value <;> simp [Value.render?]

theorem renderedDefault?_eq_none_iff {field : Field}
    : field.renderedDefault? = none ↔ field.HasNoDefault := by
  rw [renderedDefault?, default?]
  constructor
  · intro isNone
    cases found : Attribute.find? field.attributes "default" with
    | none =>
        refine .absent fun isMarked => ?_
        obtain ⟨a, isMember, named⟩ := isMarked
        exact List.find?_eq_none.mp found a isMember (beq_iff_eq.mpr named)
    | some a =>
        have first := Attribute.find?_eq_some_iff.mp found
        cases split : a.arguments with
        | nil => exact .empty first split
        | cons argument others =>
            have notShown : argument.value.render? = none := by
              simpa [found, Attribute.firstValue?, split] using isNone
            obtain ⟨names, isList⟩ := render?_eq_none_iff.mp notShown
            exact .list first split isList
  · intro hasNone
    cases hasNone with
    | absent unmarked =>
        have notFound : Attribute.find? field.attributes "default" = none :=
          List.find?_eq_none.mpr fun a isMember named =>
            unmarked ⟨a, isMember, beq_iff_eq.mp named⟩
        rw [notFound, Option.bind_none, Option.bind_none]
    | empty first noArgument =>
        simp [Attribute.find?_eq_some_iff.mpr first, Attribute.firstValue?, noArgument]
    | list first split isList =>
        simp [Attribute.find?_eq_some_iff.mpr first, Attribute.firstValue?, split, isList,
          Value.render?]

-----------------------------------------------------------------------------------------
-- Columns and tables
-----------------------------------------------------------------------------------------

/-- A column shows a field: its name, its type, whether it may be empty, what documents it, and
whether it has a default.
-/
structure IsShownBy (field : Field) (column : Column) : Prop where
  name : Naming.Calls field.name.name field.attributes column.name
  type : field.HasColumnType column.type
  nullable
    : column.nullable = true ↔ field.isOptional = true ∧ ¬field.IsMarked "id"
  comment : Documentation.Comments field.documentation column.comment
  default : column.default = none ↔ field.HasNoDefault

theorem isShownBy_toColumn (field : Field) : field.IsShownBy field.toColumn where
  name := Naming.calls_external _ _
  type := hasColumnType_columnType field
  nullable := by
    simp [toColumn, isNullable, isId, ← Attribute.occurs_iff]
  comment := Documentation.comments_elim _
  default := renderedDefault?_eq_none_iff

end Field

/-- A table shows a model. Its columns are those of the fields that hold plain values or values of
enums, one for each of them and in their order; a field of another kind has none.
-/
structure Model.IsShownBy (schema : Schema) (model : Model) (table : Table) : Prop where
  name : Naming.Calls model.name.name model.attributes table.name
  comment : Documentation.Comments model.documentation table.comment
  columns
    : Picks (fun field column => field.BecomesColumn schema ∧ field.IsShownBy column)
        (fun field =>
          schema.Resolves field.type .object ∨ schema.Resolves field.type .unsupported)
        model.fields table.columns

/-- A kind is one of four, and a field has a column for two of them. -/
theorem Field.resolves_of_not_isColumn {schema : Schema} {field : Field}
    (notColumn : ¬(Lookup.ofSchema schema).isColumn field = true)
    : schema.Resolves field.type .object ∨ schema.Resolves field.type .unsupported := by
  have resolves := Lookup.resolves_kind schema field
  rw [Lookup.isColumn_iff, BecomesColumn] at notColumn
  cases kind : (Lookup.ofSchema schema).kind field with
  | object => exact .inl (kind ▸ resolves)
  | unsupported => exact .inr (kind ▸ resolves)
  | scalar => exact absurd (.inl (kind ▸ resolves)) notColumn
  | enum => exact absurd (.inr (kind ▸ resolves)) notColumn

theorem Model.isShownBy_toTable (schema : Schema) (model : Model)
    : model.IsShownBy schema (model.toTable (.ofSchema schema)) where
  name := Naming.calls_external _ _
  comment := Documentation.comments_elim _
  columns := by
    refine picks_map_filter (fun field isColumn => ?_) (fun field notColumn => ?_) model.fields
    · exact ⟨Lookup.isColumn_iff.mp isColumn, field.isShownBy_toColumn⟩
    · exact Field.resolves_of_not_isColumn notColumn

/-- The tables of a document show the models of its schema, one for one and in their order. -/
theorem tables_mirror_models (heading : Heading) (schema : Schema)
    : List.Forall₂ (Model.IsShownBy schema) schema.models
        (Document.ofSchema heading schema).tables :=
  forall₂_map_self fun model _ => model.isShownBy_toTable schema

end SchemaDoc
