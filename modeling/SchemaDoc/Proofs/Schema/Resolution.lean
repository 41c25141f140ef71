import SchemaDoc.Naming
import SchemaDoc.Proofs.Lists
import SchemaDoc.Proofs.Lookup

/-! What the names in a schema stand for, said without reference to how they are looked up.
A name stands for the first declaration that has it, and a type that looks like a model is an
enum where an enum of its name is declared.
-/

namespace SchemaDoc

-----------------------------------------------------------------------------------------
-- Kinds of fields
-----------------------------------------------------------------------------------------

/-- The kind of a type in a schema. -/
inductive Schema.Resolves (schema : Schema) : FieldType → FieldKind → Prop
  | scalar {type} : schema.Resolves (.scalar type) .scalar
  | native {name} : schema.Resolves (.native name) .scalar
  | enum {name} : schema.Resolves (.enum name) .enum
  | declared {name} (isEnum : ∃ enum ∈ schema.enums, enum.name.name = name)
    : schema.Resolves (.object name) .enum
  | object {name} (notEnum : ∀ enum ∈ schema.enums, enum.name.name ≠ name)
    : schema.Resolves (.object name) .object
  | unsupported {text} : schema.Resolves (.unsupported text) .unsupported

/-- A field becomes a column in a schema: it holds a plain value or one of an enum. -/
def Field.BecomesColumn (schema : Schema) (field : Field) : Prop :=
  schema.Resolves field.type .scalar ∨ schema.Resolves field.type .enum

theorem Schema.isEnum_iff {schema : Schema} {name : String}
    : schema.isEnum name = true ↔ ∃ enum ∈ schema.enums, enum.name.name = name := by
  simp [isEnum, enum?]

/-- A type has one kind. -/
theorem Schema.Resolves.unique {schema : Schema} {type : FieldType} {kind kind' : FieldKind}
    (resolves : schema.Resolves type kind) (resolves' : schema.Resolves type kind')
    : kind = kind' := by
  cases resolves with
  | declared isEnum =>
      cases resolves' with
      | declared => rfl
      | object notEnum =>
          obtain ⟨enum, isMember, named⟩ := isEnum
          exact absurd named (notEnum enum isMember)
  | object notEnum =>
      cases resolves' with
      | object => rfl
      | declared isEnum =>
          obtain ⟨enum, isMember, named⟩ := isEnum
          exact absurd named (notEnum enum isMember)
  | scalar | native | enum | unsupported => cases resolves'; rfl

theorem Lookup.resolves_kind (schema : Schema) (field : Field)
    : schema.Resolves field.type ((ofSchema schema).kind field) := by
  rw [kind]
  cases field.type with
  | object name =>
      dsimp only
      rw [isEnum_ofSchema]
      split
      next declared => exact .declared (Schema.isEnum_iff.mp declared)
      next undeclared =>
        refine .object fun enum isMember named => undeclared ?_
        exact Schema.isEnum_iff.mpr ⟨enum, isMember, named⟩
  | scalar => exact .scalar
  | enum => exact .enum
  | unsupported => exact .unsupported
  | native => exact .native

/-- The index of a schema knows the kinds of its fields. -/
theorem Lookup.kind_eq_iff {schema : Schema} {field : Field} {kind : FieldKind}
    : (ofSchema schema).kind field = kind ↔ schema.Resolves field.type kind := by
  constructor
  · intro same
    subst same
    exact resolves_kind schema field
  · intro resolves
    exact (resolves_kind schema field).unique resolves

theorem Lookup.isColumn_iff {schema : Schema} {field : Field}
    : (ofSchema schema).isColumn field = true ↔ field.BecomesColumn schema := by
  rw [Field.BecomesColumn, ← kind_eq_iff, ← kind_eq_iff, isColumn]
  cases (ofSchema schema).kind field <;> simp

-----------------------------------------------------------------------------------------
-- Models and fields
-----------------------------------------------------------------------------------------

theorem Lookup.model?_eq_some_iff {schema : Schema} {name : String} {model : Model}
    : (ofSchema schema).model? name = some model
      ↔ IsFirst (·.name.name = name) schema.models model := by
  rw [model?_ofSchema]
  exact find?_eq_some_iff_isFirst fun _ => beq_iff_eq

theorem Lookup.model?_eq_none_iff {schema : Schema} {name : String}
    : (ofSchema schema).model? name = none
      ↔ ∀ model ∈ schema.models, model.name.name ≠ name := by
  simp [model?_ofSchema, Schema.model?]

/-- The column that a field name stands for in a model. -/
inductive Model.ColumnNamed (model : Model) : String → String → Prop
  | field {name field} (first : IsFirst (·.name.name = name) model.fields field)
    : model.ColumnNamed name field.columnName
  | unknown {name} (undeclared : ∀ field ∈ model.fields, field.name.name ≠ name)
    : model.ColumnNamed name (Naming.snakeCase name)

namespace Model

theorem field?_eq_some_iff {model : Model} {name : String} {field : Field}
    : model.field? name = some field ↔ IsFirst (·.name.name = name) model.fields field :=
  find?_eq_some_iff_isFirst fun _ => beq_iff_eq

theorem field?_eq_none_iff {model : Model} {name : String}
    : model.field? name = none ↔ ∀ field ∈ model.fields, field.name.name ≠ name := by
  simp [field?]

theorem columnNamed_columnOf (model : Model) (name : String)
    : model.ColumnNamed name (model.columnOf name) := by
  rw [columnOf]
  cases found : model.field? name with
  | none => exact .unknown (field?_eq_none_iff.mp found)
  | some field => exact .field (field?_eq_some_iff.mp found)

theorem columnOf_eq_iff {model : Model} {name column : String}
    : model.columnOf name = column ↔ model.ColumnNamed name column := by
  constructor
  · intro same
    subst same
    exact columnNamed_columnOf model name
  · intro named
    cases named with
    | field first => rw [columnOf, field?_eq_some_iff.mpr first, Option.elim_some]
    | unknown undeclared => rw [columnOf, field?_eq_none_iff.mpr undeclared, Option.elim_none]

theorem map_columnOf_eq_iff {model : Model} {names columns : List String}
    : names.map model.columnOf = columns ↔ List.Forall₂ model.ColumnNamed names columns := by
  rw [← List.forall₂_eq_eq_eq, List.forall₂_map_left_iff]
  simp only [columnOf_eq_iff]

end Model

-----------------------------------------------------------------------------------------
-- Attributes
-----------------------------------------------------------------------------------------

theorem Value.string?_eq_some_iff {value : Value} {text : String}
    : value.string? = some text ↔ value = .string text := by
  cases value <;> simp [string?]

theorem Value.list?_eq_some_iff {value : Value} {names : List String}
    : value.list? = some names ↔ value = .list names := by
  cases value <;> simp [list?]

namespace Attribute

/-- The first argument with a name holds a list of names. -/
def Lists (a : Attribute) (key : String) (names : List String) : Prop :=
  ∃ argument,
    IsFirst (fun argument => argument.name.map Ident.name = some key) a.arguments argument
    ∧ argument.value = .list names

/-- An attribute of a whole model lists fields, under the name `fields` or else by position. -/
inductive ListsFields (a : Attribute) (names : List String) : Prop
  | named (lists : a.Lists "fields" names)
  | positional {argument}
    (unnamed : ∀ other ∈ a.arguments, other.name.map Ident.name ≠ some "fields")
    (first : IsFirst (·.name = none) a.arguments argument)
    (isList : argument.value = .list names)

theorem find?_eq_some_iff {attributes : List Attribute} {name : String} {a : Attribute}
    : find? attributes name = some a ↔ IsFirst (·.name.name = name) attributes a :=
  find?_eq_some_iff_isFirst fun _ => beq_iff_eq

theorem named?_eq_none_iff {a : Attribute} {key : String}
    : a.named? key = none
      ↔ ∀ argument ∈ a.arguments, argument.name.map Ident.name ≠ some key := by
  simp [named?]

theorem namedList_eq_some_iff {a : Attribute} {key : String} {names : List String}
    : (a.named? key).bind Value.list? = some names ↔ a.Lists key names := by
  rw [Option.bind_eq_some_iff]
  constructor
  · intro listed
    obtain ⟨value, named, isList⟩ := listed
    obtain ⟨argument, found, rfl⟩ := Option.map_eq_some_iff.mp named
    exact ⟨argument, (find?_eq_some_iff_isFirst fun _ => beq_iff_eq).mp found,
      Value.list?_eq_some_iff.mp isList⟩
  · intro lists
    obtain ⟨argument, first, isList⟩ := lists
    have found := (find?_eq_some_iff_isFirst fun _ => beq_iff_eq).mpr first
    exact ⟨argument.value, Option.map_eq_some_iff.mpr ⟨argument, found, rfl⟩,
      Value.list?_eq_some_iff.mpr isList⟩

/-- An argument under the name hides those that are given by position, whatever it holds. -/
theorem fieldNames?_eq_some_iff {a : Attribute} {names : List String}
    : a.fieldNames? = some names ↔ a.ListsFields names := by
  have unnamed : ∀ argument : Argument, argument.name.isNone = true ↔ argument.name = none :=
    fun _ => Option.isNone_iff_eq_none
  rw [fieldNames?]
  constructor
  · intro listed
    cases named : a.named? "fields" with
    | some value =>
        rw [named, Option.some_or] at listed
        refine .named (namedList_eq_some_iff.mp ?_)
        rw [named, listed]
    | none =>
        rw [named, Option.none_or] at listed
        obtain ⟨value, positional, isList⟩ := Option.bind_eq_some_iff.mp listed
        obtain ⟨argument, found, rfl⟩ := Option.map_eq_some_iff.mp positional
        exact .positional (named?_eq_none_iff.mp named)
          ((find?_eq_some_iff_isFirst unnamed).mp found) (Value.list?_eq_some_iff.mp isList)
  · intro lists
    cases lists with
    | named lists =>
        have listed := namedList_eq_some_iff.mpr lists
        obtain ⟨value, named, isList⟩ := Option.bind_eq_some_iff.mp listed
        rw [named, Option.some_or, Option.bind_some, isList]
    | positional notNamed first isList =>
        have found := (find?_eq_some_iff_isFirst unnamed).mpr first
        rw [named?_eq_none_iff.mpr notNamed, Option.none_or, positional?, found, Option.map_some,
          Option.bind_some, isList, Value.list?]

/-- An attribute lists one list of fields at most. -/
theorem ListsFields.unique {a : Attribute} {names names' : List String}
    (lists : a.ListsFields names) (lists' : a.ListsFields names')
    : names = names' := by
  have found := fieldNames?_eq_some_iff.mpr lists
  have found' := fieldNames?_eq_some_iff.mpr lists'
  exact Option.some.inj (found.symm.trans found')

end Attribute

end SchemaDoc
