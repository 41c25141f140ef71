import Mathlib.Data.List.Nodup
import Mathlib.Data.List.Zip
import SchemaDoc.Document.Assembly
import SchemaDoc.Proofs.Schema.Resolution
import SchemaDoc.Schema.Construction
import SchemaDoc.Schema.Reader

/-! Which columns the constraints and indexes of a table list, and when a column of its primary
key is nullable. A column is nullable by the marks of its own field, while a key may also be
listed on the model, and the two do not agree in every schema.
-/

namespace SchemaDoc

-----------------------------------------------------------------------------------------
-- Tables and their columns
-----------------------------------------------------------------------------------------

/-- A document has a table for a model of its schema: the one that stands in the same place. -/
def Document.HasTable (document : Document) (schema : Schema) (model : Model) (table : Table)
    : Prop :=
  (model, table) ∈ schema.models.zip document.tables

theorem Document.hasTable_ofSchema_iff {heading : Heading} {schema : Schema} {model : Model}
    {table : Table}
    : (ofSchema heading schema).HasTable schema model table
      ↔ model ∈ schema.models ∧ table = model.toTable (.ofSchema schema) := by
  rw [HasTable, ofSchema, ← List.map_prod_left_eq_zip, List.mem_map]
  constructor
  · intro found
    obtain ⟨other, isMember, same⟩ := found
    obtain ⟨rfl, rfl⟩ := Prod.mk.inj same
    exact ⟨isMember, rfl⟩
  · intro found
    obtain ⟨isMember, rfl⟩ := found
    exact ⟨model, isMember, rfl⟩

theorem Model.mem_columns_iff {schema : Schema} {model : Model} {column : Column}
    : column ∈ model.columns (.ofSchema schema)
      ↔ ∃ field ∈ model.fields, field.BecomesColumn schema ∧ field.toColumn = column := by
  simp only [columns, List.mem_map, List.mem_filter, Lookup.isColumn_iff, and_assoc]

-----------------------------------------------------------------------------------------
-- What constraints and indexes list
-----------------------------------------------------------------------------------------

namespace Model

variable {model : Model}

theorem listedColumns?_eq_some_iff {a : Attribute} {columns : List String}
    : model.listedColumns? a = some columns
      ↔ columns ≠ [] ∧ ∃ names, a.ListsFields names ∧ names.map model.columnOf = columns := by
  rw [listedColumns?, Option.filter_eq_some_iff, Option.map_eq_some_iff, and_comm,
    decide_eq_true_iff]
  simp only [Attribute.fieldNames?_eq_some_iff]

/-- A column belongs to the key of a model: the first `@@id` lists a field that stands for it,
or that attribute lists nothing and a field marked `@id` has the column.
-/
inductive KeyColumn (model : Model) (column : String) : Prop
  | listed {a names name} (first : IsFirst (·.name.name = "id") model.attributes a)
    (lists : a.ListsFields names) (isMember : name ∈ names)
    (named : model.ColumnNamed name column)
  | marked {field}
    (unlisted
      : ∀ a names,
          IsFirst (·.name.name = "id") model.attributes a → a.ListsFields names → names = [])
    (isMember : field ∈ model.fields) (isId : field.isId = true)
    (named : field.columnName = column)

theorem listedKey_eq_some_iff {columns : List String}
    : (Attribute.find? model.attributes "id").bind model.listedColumns? = some columns
      ↔ columns ≠ []
        ∧ ∃ a names,
            IsFirst (·.name.name = "id") model.attributes a
            ∧ a.ListsFields names
            ∧ names.map model.columnOf = columns := by
  simp only [Option.bind_eq_some_iff, Attribute.find?_eq_some_iff, listedColumns?_eq_some_iff]
  constructor
  · intro listed
    obtain ⟨a, first, nonempty, names, lists, same⟩ := listed
    exact ⟨nonempty, a, names, first, lists, same⟩
  · intro listed
    obtain ⟨nonempty, a, names, first, lists, same⟩ := listed
    exact ⟨a, first, nonempty, names, lists, same⟩

theorem listedKey_eq_none_iff
    : (Attribute.find? model.attributes "id").bind model.listedColumns? = none
      ↔ ∀ a names,
          IsFirst (·.name.name = "id") model.attributes a → a.ListsFields names → names = [] := by
  rw [Option.eq_none_iff_forall_ne_some]
  constructor
  · intro notListed a names first lists
    by_contra nonempty
    apply notListed (names.map model.columnOf)
    exact listedKey_eq_some_iff.mpr
      ⟨mt List.map_eq_nil_iff.mp nonempty, a, names, first, lists, rfl⟩
  · intro unlisted columns listed
    obtain ⟨nonempty, a, names, first, lists, rfl⟩ := listedKey_eq_some_iff.mp listed
    apply nonempty
    rw [unlisted a names first lists, List.map_nil]

theorem markedKey_eq_some_iff {columns : List String}
    : (some (model.idFields.map Field.columnName)).filter (· ≠ []) = some columns
      ↔ columns ≠ [] ∧ model.idFields.map Field.columnName = columns := by
  rw [Option.filter_eq_some_iff, Option.some.injEq, and_comm, decide_eq_true_iff]

theorem mem_idColumns_iff {column : String}
    : column ∈ model.idFields.map Field.columnName
      ↔ ∃ field ∈ model.fields, field.isId = true ∧ field.columnName = column := by
  simp only [idFields, List.mem_map, List.mem_filter, and_assoc]

/-- The columns of a key are those that are listed or else marked. A list hides the marks
when it is not empty.
-/
theorem mem_keyColumns?_iff {column : String}
    : (∃ columns, model.keyColumns? = some columns ∧ column ∈ columns)
      ↔ model.KeyColumn column := by
  rw [keyColumns?]
  cases listed : (Attribute.find? model.attributes "id").bind model.listedColumns? with
  | some columns =>
      obtain ⟨nonempty, a, names, first, lists, rfl⟩ := listedKey_eq_some_iff.mp listed
      simp only [Option.some_or, Option.some.injEq, exists_eq_left', List.mem_map]
      constructor
      · intro found
        obtain ⟨name, isMember, named⟩ := found
        exact .listed first lists isMember (columnOf_eq_iff.mp named)
      · intro belongs
        cases belongs with
        | listed first' lists' isMember named =>
            obtain rfl := first.unique first'
            obtain rfl := lists.unique lists'
            exact ⟨_, isMember, columnOf_eq_iff.mpr named⟩
        | marked unlisted _ _ _ =>
            rw [unlisted a names first lists, List.map_nil] at nonempty
            exact absurd rfl nonempty
  | none =>
      have unlisted := listedKey_eq_none_iff.mp listed
      simp only [Option.none_or, markedKey_eq_some_iff]
      constructor
      · intro found
        obtain ⟨columns, ⟨-, rfl⟩, isMember⟩ := found
        obtain ⟨field, isField, isId, named⟩ := mem_idColumns_iff.mp isMember
        exact .marked unlisted isField isId named
      · intro belongs
        cases belongs with
        | listed first lists isMember _ =>
            rw [unlisted _ _ first lists] at isMember
            exact absurd isMember List.not_mem_nil
        | marked _ isField isId named =>
            have isMember := mem_idColumns_iff.mpr ⟨_, isField, isId, named⟩
            exact ⟨_, ⟨List.ne_nil_of_mem isMember, rfl⟩, isMember⟩

theorem keyColumns?_ne_nil {columns : List String} (found : model.keyColumns? = some columns)
    : columns ≠ [] := by
  rw [keyColumns?, Option.or_eq_some_iff] at found
  rcases found with listed | ⟨-, marked⟩
  · exact (listedKey_eq_some_iff.mp listed).1
  · exact (markedKey_eq_some_iff.mp marked).1

/-- A constraint of a model is its key, or of a field marked `@unique`, or of an attribute
`@@unique` that lists a field.
-/
theorem mem_constraints_iff {constraint : Constraint}
    : constraint ∈ model.constraints
      ↔ (∃ columns,
          model.keyColumns? = some columns
          ∧ constraint = .primaryKey model.tableName columns)
        ∨ (∃ field ∈ model.fields,
            field.isUnique = true
            ∧ constraint = .unique model.tableName [field.columnName])
        ∨ ∃ a ∈ model.attributes,
            a.name.name = "unique"
            ∧ ∃ columns,
                model.listedColumns? a = some columns
                ∧ constraint = .unique model.tableName columns := by
  simp only [constraints, attributesNamed, Attribute.isNamed, List.mem_append,
    Option.mem_toList, Option.map_eq_some_iff, List.mem_map, List.mem_filter,
    List.mem_filterMap, beq_iff_eq, or_assoc]
  grind

theorem mem_indexes_iff {index : TableIndex}
    : index ∈ model.indexes
      ↔ ∃ a ∈ model.attributes,
          a.name.name = "index"
          ∧ ∃ columns,
              model.listedColumns? a = some columns
              ∧ index = .ofColumns model.tableName columns
                  (((a.named? "name").or (a.named? "map")).bind Value.string?) := by
  simp only [indexes, index?, attributesNamed, Attribute.isNamed, List.mem_filterMap,
    List.mem_filter, Option.map_eq_some_iff, beq_iff_eq]
  grind

end Model

-----------------------------------------------------------------------------------------
-- Nullable columns of a primary key
-----------------------------------------------------------------------------------------

theorem Model.exists_primaryKey_iff {schema : Schema} {model : Model} {column : String}
    : (∃ key ∈ (model.toTable (.ofSchema schema)).constraints,
        key.kind = .primaryKey ∧ column ∈ key.columns)
      ↔ model.KeyColumn column := by
  rw [← mem_keyColumns?_iff]
  constructor
  · intro found
    obtain ⟨key, isKey, isPrimary, isMember⟩ := found
    rcases mem_constraints_iff.mp isKey with
      ⟨columns, found, rfl⟩ | ⟨field, -, -, rfl⟩ | ⟨a, -, -, columns, -, rfl⟩
    · exact ⟨columns, found, isMember⟩
    · exact ConstraintKind.noConfusion isPrimary
    · exact ConstraintKind.noConfusion isPrimary
  · intro found
    obtain ⟨columns, found, isMember⟩ := found
    exact ⟨_, mem_constraints_iff.mpr (.inl ⟨columns, found, rfl⟩), rfl, isMember⟩

/-- A name in the primary key of a table is that of a nullable column exactly when the column
belongs to the key and a field that is optional and not marked `@id` has it.
-/
theorem nullable_key_column_iff (heading : Heading) (schema : Schema) (model : Model)
    (table : Table) (name : String)
    (hasTable : (Document.ofSchema heading schema).HasTable schema model table)
    : ((∃ key ∈ table.constraints, key.kind = .primaryKey ∧ name ∈ key.columns)
        ∧ ∃ column ∈ table.columns, column.name = name ∧ column.nullable = true)
      ↔ model.KeyColumn name
        ∧ ∃ field ∈ model.fields,
            field.BecomesColumn schema
            ∧ field.columnName = name
            ∧ field.isOptional = true
            ∧ field.isId = false := by
  obtain ⟨-, rfl⟩ := Document.hasTable_ofSchema_iff.mp hasTable
  rw [Model.exists_primaryKey_iff]
  refine and_congr_right fun _ => ?_
  constructor
  · intro found
    obtain ⟨column, isMember, named, isNullable⟩ := found
    obtain ⟨field, isField, becomes, rfl⟩ := Model.mem_columns_iff.mp isMember
    have marks : field.isOptional = true ∧ field.isId = false := by
      simpa [Field.toColumn, Field.isNullable] using isNullable
    exact ⟨field, isField, becomes, named, marks⟩
  · intro found
    obtain ⟨field, isField, becomes, named, isOptional, notId⟩ := found
    have isNullable : field.toColumn.nullable = true := by
      simp [Field.toColumn, Field.isNullable, isOptional, notId]
    exact ⟨field.toColumn, Model.mem_columns_iff.mpr ⟨field, isField, becomes, rfl⟩, named,
      isNullable⟩

/-- An optional field that the key of a model lists has such a column. -/
theorem nullable_key_column_of_listed
    : let line : Field := { Field.unplaced "line" (.scalar .int) with isOptional := true }
      let listing : Attribute := .unplaced "id" [.positional (.list ["line"])]
      let item : Model := ((Model.unplaced "Item").addField line).addAttribute listing
      let schema : Schema := ⟨[item], []⟩
      let table := item.toTable (.ofSchema schema)
      (Document.ofSchema default schema).HasTable schema item table
      ∧ (∃ key ∈ table.constraints, key.kind = .primaryKey ∧ "line" ∈ key.columns)
      ∧ ∃ column ∈ table.columns, column.name = "line" ∧ column.nullable = true := by
  intro line listing item schema table
  have hasTable : (Document.ofSchema default schema).HasTable schema item table :=
    Document.hasTable_ofSchema_iff.mpr ⟨List.mem_singleton_self item, rfl⟩
  have lists : listing.ListsFields ["line"] := Attribute.fieldNames?_eq_some_iff.mp rfl
  have first : IsFirst (·.name.name = "id") item.attributes listing :=
    Attribute.find?_eq_some_iff.mp (by decide)
  have belongs : item.KeyColumn "line" :=
    .listed first lists (List.mem_singleton_self "line") (Model.columnOf_eq_iff.mp (by decide))
  exact ⟨hasTable, (nullable_key_column_iff default schema item table "line" hasTable).mpr
    ⟨belongs, line, List.mem_singleton_self line, .inl .scalar, by decide, rfl, by decide⟩⟩

/-- There the primary key holds a column that may be empty. -/
theorem primaryKey_of_optional_field
    : let text := "model A { x Int? y Int @@id([x, y]) }"
      (Schema.ofText false text).toOption.map (fun schema =>
          (Document.ofSchema default schema).tables.map fun table =>
            (table.primaryKey?.map Constraint.columns,
              table.columns.map fun column => (column.name, column.nullable)))
        = some [(some ["x", "y"], [("x", true), ("y", false)])] := by
  decide +kernel

/-- A key of fields marked `@id` has no nullable column, if no other field has its columns. -/
theorem not_nullable_of_marked_key {heading : Heading} {schema : Schema} {model : Model}
    {table : Table}
    (hasTable : (Document.ofSchema heading schema).HasTable schema model table)
    (unlisted
      : ∀ a names,
          IsFirst (·.name.name = "id") model.attributes a → a.ListsFields names → names = [])
    (distinct : (model.fields.map Field.columnName).Nodup) {key : Constraint} {column : Column}
    (isKey : key ∈ table.constraints) (isPrimary : key.kind = .primaryKey)
    (isColumn : column ∈ table.columns) (isMember : column.name ∈ key.columns)
    : column.nullable = false := by
  obtain ⟨-, rfl⟩ := Document.hasTable_ofSchema_iff.mp hasTable
  obtain ⟨field, isField, -, rfl⟩ := Model.mem_columns_iff.mp isColumn
  cases Model.exists_primaryKey_iff.mp ⟨key, isKey, isPrimary, isMember⟩ with
  | listed first lists isMember _ =>
      rw [unlisted _ _ first lists] at isMember
      exact absurd isMember List.not_mem_nil
  | marked _ isMember isId named =>
      obtain rfl := List.inj_on_of_nodup_map distinct isMember isField named
      simp [Field.toColumn, Field.isNullable, isId]

end SchemaDoc
