import SchemaDoc.Proofs.Document.Keys
import SchemaDoc.Proofs.Document.Relations
import SchemaDoc.Schema.Construction

/-! A document is closed under its own references.
Constraints and indexes carry the name of their table, and a relation joins the tables of the
models that it relates. Where the names in a schema stand for fields that become columns, every
column that is referred to exists.
-/

namespace SchemaDoc

-----------------------------------------------------------------------------------------
-- Names that stand for columns
-----------------------------------------------------------------------------------------

/-- A name stands for a field of a model that becomes a column. -/
def Model.NamesColumn (schema : Schema) (model : Model) (name : String) : Prop :=
  ∃ field, IsFirst (·.name.name = name) model.fields field ∧ field.BecomesColumn schema

/-- All that the keys, unique lists and indexes of a model speak of becomes a column. -/
structure Model.KeysNameColumns (schema : Schema) (model : Model) : Prop where
  key
    : ∀ a names,
        IsFirst (·.name.name = "id") model.attributes a
        → a.ListsFields names
        → ∀ name ∈ names, model.NamesColumn schema name
  lists
    : ∀ a ∈ model.attributes,
        a.name.name = "unique" ∨ a.name.name = "index"
        → ∀ names, a.ListsFields names → ∀ name ∈ names, model.NamesColumn schema name
  marked
    : ∀ field ∈ model.fields,
        field.isId = true ∨ field.isUnique = true → field.BecomesColumn schema

/-- A table has a column of a name. -/
def Table.HasColumn (table : Table) (name : String) : Prop :=
  ∃ column ∈ table.columns, column.name = name

-----------------------------------------------------------------------------------------
-- Closed tables and relations
-----------------------------------------------------------------------------------------

/-- A table for a model is closed: its constraints and indexes are its own, none is empty, and
they list columns of the table if the model speaks of nothing else.
-/
structure Table.IsClosed (schema : Schema) (model : Model) (table : Table) : Prop where
  ownConstraints : ∀ c ∈ table.constraints, c.table = table.name ∧ c.columns ≠ []
  ownIndexes : ∀ index ∈ table.indexes, index.table = table.name ∧ index.columns ≠ []
  constraintColumns
    : model.KeysNameColumns schema
      → ∀ c ∈ table.constraints, ∀ column ∈ c.columns, table.HasColumn column
  indexColumns
    : model.KeysNameColumns schema
      → ∀ index ∈ table.indexes, ∀ column ∈ index.columns, table.HasColumn column

/-- A relation of a document is closed: it joins the tables for the model of the field that
makes it and for the parent, pairs their columns, and on either side refers to columns of the
table if the names in its key stand for columns.
-/
structure Relation.IsClosed (schema : Schema) (document : Document) (model : Model)
    (fields references : List String) (parent : Model) (relation : Relation)
    : Prop where
  table : ∃ table, document.HasTable schema model table ∧ relation.table = table.name
  parentTable
    : ∃ table, document.HasTable schema parent table ∧ relation.parentTable = table.name
  paired : relation.columns.length = relation.parentColumns.length
  nonempty : relation.columns ≠ []
  columns
    : (∀ name ∈ fields, model.NamesColumn schema name)
      → ∀ table, document.HasTable schema model table
        → ∀ column ∈ relation.columns, table.HasColumn column
  parentColumns
    : (∀ name ∈ references, parent.NamesColumn schema name)
      → ∀ table, document.HasTable schema parent table
        → ∀ column ∈ relation.parentColumns, table.HasColumn column

namespace Model

variable {schema : Schema} {model : Model}

theorem hasColumn_toTable {field : Field} (isMember : field ∈ model.fields)
    (becomes : field.BecomesColumn schema)
    : (model.toTable (.ofSchema schema)).HasColumn field.columnName :=
  ⟨field.toColumn, mem_columns_iff.mpr ⟨field, isMember, becomes, rfl⟩, rfl⟩

/-- The column of a name that stands for one is in the table of the model. -/
theorem NamesColumn.hasColumn {name column : String} (names : model.NamesColumn schema name)
    (named : model.ColumnNamed name column)
    : (model.toTable (.ofSchema schema)).HasColumn column := by
  obtain ⟨field, first, becomes⟩ := names
  cases named with
  | field first' =>
      obtain rfl := first.unique first'
      exact hasColumn_toTable first.mem becomes
  | unknown undeclared => exact absurd first.holds (undeclared field first.mem)

theorem hasColumn_of_forall₂ {names columns : List String}
    (named : List.Forall₂ model.ColumnNamed names columns)
    (allName : ∀ name ∈ names, model.NamesColumn schema name)
    : ∀ column ∈ columns, (model.toTable (.ofSchema schema)).HasColumn column := by
  intro column isMember
  rw [← map_columnOf_eq_iff.mpr named] at isMember
  obtain ⟨name, isName, standsFor⟩ := List.mem_map.mp isMember
  exact (allName name isName).hasColumn (columnOf_eq_iff.mp standsFor)

theorem hasColumn_of_listedColumns? {a : Attribute} {columns : List String}
    (listed : model.listedColumns? a = some columns)
    (allName : ∀ names, a.ListsFields names → ∀ name ∈ names, model.NamesColumn schema name)
    : ∀ column ∈ columns, (model.toTable (.ofSchema schema)).HasColumn column := by
  obtain ⟨-, names, lists, same⟩ := listedColumns?_eq_some_iff.mp listed
  exact hasColumn_of_forall₂ (map_columnOf_eq_iff.mp same) (allName names lists)

theorem hasColumn_of_keyColumn {column : String} (belongs : model.KeyColumn column)
    (keys : model.KeysNameColumns schema)
    : (model.toTable (.ofSchema schema)).HasColumn column := by
  cases belongs with
  | listed first lists isMember named =>
      exact (keys.key _ _ first lists _ isMember).hasColumn named
  | marked _ isMember isId named =>
      rw [← named]
      exact hasColumn_toTable isMember (keys.marked _ isMember (.inl isId))

/-- The table of a model is closed. -/
theorem isClosed_toTable (schema : Schema) (model : Model)
    : (model.toTable (.ofSchema schema)).IsClosed schema model where
  ownConstraints c isMember := by
    rcases mem_constraints_iff.mp isMember with
      ⟨columns, found, rfl⟩ | ⟨field, -, -, rfl⟩ | ⟨a, -, -, columns, found, rfl⟩
    · exact ⟨rfl, keyColumns?_ne_nil found⟩
    · exact ⟨rfl, List.cons_ne_nil _ _⟩
    · exact ⟨rfl, (listedColumns?_eq_some_iff.mp found).1⟩
  ownIndexes index isMember := by
    obtain ⟨a, -, -, columns, found, rfl⟩ := mem_indexes_iff.mp isMember
    exact ⟨rfl, (listedColumns?_eq_some_iff.mp found).1⟩
  constraintColumns keys c isMember := by
    rcases mem_constraints_iff.mp isMember with
      ⟨columns, found, rfl⟩ | ⟨field, isField, isUnique, rfl⟩ | ⟨a, isAttribute, named, columns,
        found, rfl⟩
    · intro column isColumn
      have belongs := mem_keyColumns?_iff.mp ⟨columns, found, isColumn⟩
      exact hasColumn_of_keyColumn belongs keys
    · intro column isColumn
      obtain rfl := List.mem_singleton.mp isColumn
      exact hasColumn_toTable isField (keys.marked field isField (.inr isUnique))
    · exact hasColumn_of_listedColumns? found (keys.lists a isAttribute (.inl named))
  indexColumns keys index isMember := by
    obtain ⟨a, isAttribute, named, columns, found, rfl⟩ := mem_indexes_iff.mp isMember
    exact hasColumn_of_listedColumns? found (keys.lists a isAttribute (.inr named))

end Model

/-- The relation of a key is closed in the document of its schema. -/
theorem Relation.IsOf.isClosed {heading : Heading} {schema : Schema} {model parent : Model}
    {field : Field} {fields references : List String} {relation : Relation}
    (isOf : Relation.IsOf schema model field fields references parent relation)
    (holds : field.HoldsKey schema fields references parent) (isModel : model ∈ schema.models)
    : relation.IsClosed schema (Document.ofSchema heading schema) model fields references
        parent where
  table := ⟨_, Document.hasTable_ofSchema_iff.mpr ⟨isModel, rfl⟩, isOf.table⟩
  parentTable :=
    ⟨_, Document.hasTable_ofSchema_iff.mpr ⟨holds.target.mem, rfl⟩, isOf.parentTable⟩
  paired := by
    rw [← isOf.columns.length_eq, ← isOf.parentColumns.length_eq, holds.paired]
  nonempty := by
    rw [← List.length_pos_iff, ← isOf.columns.length_eq, List.length_pos_iff]
    exact holds.nonempty
  columns allName table hasTable := by
    obtain ⟨-, rfl⟩ := Document.hasTable_ofSchema_iff.mp hasTable
    exact Model.hasColumn_of_forall₂ isOf.columns allName
  parentColumns allName table hasTable := by
    obtain ⟨-, rfl⟩ := Document.hasTable_ofSchema_iff.mp hasTable
    exact Model.hasColumn_of_forall₂ isOf.parentColumns allName

/-- The document of a schema is closed: its tables are, one for each model, and each of its
relations is made by the key that a field of some model holds, and closed.
-/
theorem document_closed (heading : Heading) (schema : Schema)
    : List.Forall₂ (Table.IsClosed schema) schema.models
        (Document.ofSchema heading schema).tables
      ∧ ∀ relation ∈ (Document.ofSchema heading schema).relations,
          ∃ model ∈ schema.models, ∃ field ∈ model.fields, ∃ fields references parent,
            field.HoldsKey schema fields references parent
            ∧ Relation.IsOf schema model field fields references parent relation
            ∧ relation.IsClosed schema (Document.ofSchema heading schema) model fields references
                parent := by
  constructor
  · refine List.forall₂_map_right_iff.mpr (List.forall₂_same.mpr fun model _ => ?_)
    exact Model.isClosed_toTable schema model
  · intro relation isMember
    obtain ⟨model, isModel, isMember⟩ := List.mem_flatMap.mp isMember
    obtain ⟨field, isField, related⟩ := List.mem_filterMap.mp isMember
    obtain ⟨fields, references, parent, holds, isOf⟩ := Lookup.relation?_eq_some_iff.mp related
    exact ⟨model, isModel, field, isField, fields, references, parent, holds, isOf,
      isOf.isClosed holds isModel⟩

/-- The relation of posts to their authors is closed, and so is the key of the authors. -/
theorem closed_of_post_author
    : let id := (Field.unplaced "id" (.scalar .int)).addAttribute (.unplaced "id" [])
      let user := (Model.unplaced "User").addField id
      let author := (Field.unplaced "author" (.object "User")).addAttribute
        (.unplaced "relation"
          [.named "fields" (.list ["authorId"]), .named "references" (.list ["id"])])
      let post := ((Model.unplaced "Post").addField
        (.unplaced "authorId" (.scalar .int))).addField author
      let schema : Schema := ⟨[user, post], []⟩
      let document := Document.ofSchema default schema
      let relation : Relation :=
        ⟨"post", ["author_id"], .exactlyOne, "user", ["id"], .exactlyOne,
          "FOREIGN KEY (author_id) REFERENCES user(id)"⟩
      relation ∈ document.relations
      ∧ (∃ model ∈ schema.models, ∃ field ∈ model.fields, ∃ fields references parent,
          field.HoldsKey schema fields references parent
          ∧ Relation.IsOf schema model field fields references parent relation
          ∧ relation.IsClosed schema document model fields references parent)
      ∧ post.NamesColumn schema "authorId"
      ∧ user.NamesColumn schema "id"
      ∧ user.KeysNameColumns schema
      ∧ ∀ c ∈ (user.toTable (.ofSchema schema)).constraints, ∀ column ∈ c.columns,
          (user.toTable (.ofSchema schema)).HasColumn column := by
  intro id user author post schema document relation
  have isRelation : relation ∈ document.relations := by decide
  have keys : user.KeysNameColumns schema := {
    key := fun a _ first => absurd first.mem List.not_mem_nil
    lists := fun a isAttribute => absurd isAttribute List.not_mem_nil
    marked := by
      intro field isField _
      obtain rfl := List.mem_singleton.mp isField
      exact .inl .scalar
  }
  have ofPost : post.NamesColumn schema "authorId" :=
    ⟨_, Model.field?_eq_some_iff.mp rfl, .inl .scalar⟩
  have ofUser : user.NamesColumn schema "id" :=
    ⟨_, Model.field?_eq_some_iff.mp rfl, .inl .scalar⟩
  have closed := document_closed default schema
  exact ⟨isRelation, closed.2 relation isRelation, ofPost, ofUser, keys,
    (List.forall₂_cons.mp closed.1).1.constraintColumns keys⟩

end SchemaDoc
