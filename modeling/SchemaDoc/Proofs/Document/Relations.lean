import SchemaDoc.Document.Assembly
import SchemaDoc.Proofs.Schema.Resolution

/-! Which relations a schema has, said field by field, and that its document has exactly those.
A field makes a relation when it holds the key of a declared model. It is then no column, and
a field that is neither leaves no trace.
-/

namespace SchemaDoc

-----------------------------------------------------------------------------------------
-- What a field holds and bears
-----------------------------------------------------------------------------------------

/-- A field holds the key of a parent: it is of the kind of a model, its first `@relation` pairs
fields with as many references, and the parent is the first model that its type names.
-/
structure Field.HoldsKey (schema : Schema) (field : Field) (fields references : List String)
    (parent : Model)
    : Prop where
  isObject : schema.Resolves field.type .object
  listed
    : ∃ a,
        IsFirst (·.name.name = "relation") field.attributes a
        ∧ a.Lists "fields" fields
        ∧ a.Lists "references" references
  nonempty : fields ≠ []
  paired : fields.length = references.length
  target : IsFirst (·.name.name = field.type.name) schema.models parent

/-- The cardinality that the marks of a field say; an optional mark on a list says nothing. -/
inductive Field.Bears (field : Field) : Cardinality → Prop
  | many (isList : field.isList = true) : field.Bears .zeroOrMore
  | optional (notList : field.isList = false) (isOptional : field.isOptional = true)
    : field.Bears .zeroOrOne
  | single (notList : field.isList = false) (notOptional : field.isOptional = false)
    : field.Bears .exactlyOne

/-- A field refers back to a child. -/
def Field.RefersTo (schema : Schema) (child : Model) (field : Field) : Prop :=
  schema.Resolves field.type .object ∧ field.type.name = child.name.name

/-- What a parent sees of a child: what its first field that refers back bears. -/
inductive Model.Sees (schema : Schema) (parent child : Model) : Cardinality → Prop
  | back {field cardinality} (first : IsFirst (Field.RefersTo schema child) parent.fields field)
    (bears : field.Bears cardinality)
    : parent.Sees schema child cardinality
  | unseen (none : ∀ field ∈ parent.fields, ¬Field.RefersTo schema child field)
    : parent.Sees schema child .exactlyOne

/-- A relation is that of a key which a field of a model holds. -/
structure Relation.IsOf (schema : Schema) (model : Model) (field : Field)
    (fields references : List String) (parent : Model) (relation : Relation)
    : Prop where
  table : relation.table = model.tableName
  columns : List.Forall₂ model.ColumnNamed fields relation.columns
  cardinality : field.Bears relation.cardinality
  parentTable : relation.parentTable = parent.tableName
  parentColumns : List.Forall₂ parent.ColumnNamed references relation.parentColumns
  parentCardinality : parent.Sees schema model relation.parentCardinality
  definition
    : relation.definition
      = "FOREIGN KEY (" ++ ", ".intercalate relation.columns ++ ") REFERENCES "
        ++ relation.parentTable ++ "(" ++ ", ".intercalate relation.parentColumns ++ ")"

namespace Field

theorem cardinality_eq_iff {field : Field} {c : Cardinality}
    : field.cardinality = c ↔ field.Bears c := by
  constructor
  · intro same
    subst same
    rw [cardinality, Cardinality.ofMarks]
    cases isList : field.isList with
    | true => exact .many isList
    | false =>
        cases isOptional : field.isOptional with
        | true => exact .optional isList isOptional
        | false => exact .single isList isOptional
  · intro bears
    rw [cardinality, Cardinality.ofMarks]
    cases bears with
    | many isList => rw [if_pos isList]
    | optional notList isOptional => simp [notList, isOptional]
    | single notList notOptional => simp [notList, notOptional]

/-- A list that counts as empty because it is missing is never part of a foreign key. -/
theorem exists_foreignKey?_iff {field : Field} {fields references : List String}
    : (∃ key, field.foreignKey? = some key ∧ key.fields = fields ∧ key.references = references)
      ↔ (∃ a,
          IsFirst (·.name.name = "relation") field.attributes a
          ∧ a.Lists "fields" fields
          ∧ a.Lists "references" references)
        ∧ fields ≠ []
        ∧ fields.length = references.length := by
  have listed {a : Attribute} {key : String} (nonempty
      : ((a.named? key).bind Value.list?).getD [] ≠ [])
      : a.Lists key (((a.named? key).bind Value.list?).getD []) := by
    cases found : (a.named? key).bind Value.list? with
    | none => simp [found] at nonempty
    | some names => exact Attribute.namedList_eq_some_iff.mp found
  constructor
  · intro found
    obtain ⟨key, isKey, rfl, rfl⟩ := found
    obtain ⟨related, usable⟩ := Option.filter_eq_some_iff.mp isKey
    obtain ⟨a, found, rfl⟩ := Option.map_eq_some_iff.mp related
    simp only [Relationship.isForeignKey, Bool.and_eq_true, Bool.not_eq_true',
      List.isEmpty_eq_false_iff, beq_iff_eq] at usable
    obtain ⟨nonempty, paired⟩ := usable
    have nonempty' : a.toRelationship.references ≠ [] := by
      rw [← List.length_pos_iff, ← paired]
      exact List.length_pos_iff.mpr nonempty
    exact ⟨⟨a, Attribute.find?_eq_some_iff.mp found, listed nonempty, listed nonempty'⟩,
      nonempty, paired⟩
  · intro holds
    obtain ⟨⟨a, first, lists, listsReferences⟩, nonempty, paired⟩ := holds
    have sameFields : a.toRelationship.fields = fields := by
      simp [Attribute.toRelationship, Attribute.namedList_eq_some_iff.mpr lists]
    have sameReferences : a.toRelationship.references = references := by
      simp [Attribute.toRelationship, Attribute.namedList_eq_some_iff.mpr listsReferences]
    refine ⟨a.toRelationship, Option.filter_eq_some_iff.mpr ⟨?_, ?_⟩, sameFields, sameReferences⟩
    · rw [relationship?, Attribute.find?_eq_some_iff.mpr first, Option.map_some]
    · simp [Relationship.isForeignKey, sameFields, sameReferences, nonempty, paired]

end Field

-----------------------------------------------------------------------------------------
-- The relation of one field
-----------------------------------------------------------------------------------------

namespace Lookup

variable {schema : Schema} {model parent : Model} {field : Field} {relation : Relation}
  {fields references : List String}

theorem refersTo_iff
    : (ofSchema schema).refersTo model.name.name field = true
      ↔ Field.RefersTo schema model field := by
  rw [Field.RefersTo, refersTo, Bool.and_eq_true, decide_eq_true_iff, kind_eq_iff, beq_iff_eq]

theorem sees_parentCardinality (schema : Schema) (model parent : Model)
    : parent.Sees schema model ((ofSchema schema).parentCardinality model parent) := by
  rw [parentCardinality]
  cases found : parent.fields.find? ((ofSchema schema).refersTo model.name.name) with
  | none =>
      refine .unseen fun field isMember refersTo => ?_
      exact List.find?_eq_none.mp found field isMember (refersTo_iff.mpr refersTo)
  | some field =>
      have first := (find?_eq_some_iff_isFirst fun _ => refersTo_iff).mp found
      exact .back first (Field.cardinality_eq_iff.mp rfl)

theorem parentCardinality_eq_iff {c : Cardinality}
    : (ofSchema schema).parentCardinality model parent = c ↔ parent.Sees schema model c := by
  constructor
  · intro same
    subst same
    exact sees_parentCardinality schema model parent
  · intro sees
    rw [parentCardinality]
    cases sees with
    | back first bears =>
        have found := (find?_eq_some_iff_isFirst fun _ => refersTo_iff).mpr first
        rw [found, Option.elim_some, Field.cardinality_eq_iff.mpr bears]
    | unseen none =>
        have absent : parent.fields.find? ((ofSchema schema).refersTo model.name.name) = .none :=
          List.find?_eq_none.mpr fun field isMember => mt refersTo_iff.mp (none field isMember)
        rw [absent, Option.elim_none]

/-- The relation that is built for a key is the only one of the key. -/
theorem relation_eq_iff {key : Relationship}
    : (ofSchema schema).relation model field key parent = relation
      ↔ Relation.IsOf schema model field key.fields key.references parent relation := by
  constructor
  · intro same
    subst same
    exact {
      table := rfl
      columns := Model.map_columnOf_eq_iff.mp rfl
      cardinality := Field.cardinality_eq_iff.mp rfl
      parentTable := rfl
      parentColumns := Model.map_columnOf_eq_iff.mp rfl
      parentCardinality := sees_parentCardinality schema model parent
      definition := rfl
    }
  · intro isOf
    have columns := Model.map_columnOf_eq_iff.mpr isOf.columns
    have parentColumns := Model.map_columnOf_eq_iff.mpr isOf.parentColumns
    have cardinality := Field.cardinality_eq_iff.mpr isOf.cardinality
    have parentCardinality := parentCardinality_eq_iff.mpr isOf.parentCardinality
    have definition
        : relation.definition
          = Relation.foreignKeyDefinition relation.columns parent.tableName
              relation.parentColumns := by
      rw [isOf.definition, isOf.parentTable]
      rfl
    rw [Lookup.relation, columns, parentColumns, cardinality, parentCardinality, ← isOf.table,
      ← definition, ← isOf.parentTable]

theorem exists_key_iff
    : (∃ key,
        (ofSchema schema).kind field = .object
        ∧ field.foreignKey? = some key
        ∧ (ofSchema schema).model? field.type.name = some parent
        ∧ key.fields = fields
        ∧ key.references = references)
      ↔ field.HoldsKey schema fields references parent := by
  constructor
  · intro held
    obtain ⟨key, isObject, isKey, found, sameFields, sameReferences⟩ := held
    obtain ⟨listed, nonempty, paired⟩ :=
      Field.exists_foreignKey?_iff.mp ⟨key, isKey, sameFields, sameReferences⟩
    exact ⟨kind_eq_iff.mp isObject, listed, nonempty, paired, model?_eq_some_iff.mp found⟩
  · intro holds
    obtain ⟨key, isKey, sameFields, sameReferences⟩ :=
      Field.exists_foreignKey?_iff.mpr ⟨holds.listed, holds.nonempty, holds.paired⟩
    exact ⟨key, kind_eq_iff.mpr holds.isObject, isKey, model?_eq_some_iff.mpr holds.target,
      sameFields, sameReferences⟩

theorem relation?_eq_some_iff
    : (ofSchema schema).relation? model field = some relation
      ↔ ∃ fields references parent,
          field.HoldsKey schema fields references parent
          ∧ Relation.IsOf schema model field fields references parent relation := by
  constructor
  · intro related
    rw [relation?] at related
    split at related
    · rename_i isObject
      obtain ⟨key, isKey, related⟩ := Option.bind_eq_some_iff.mp related
      obtain ⟨parent, found, related⟩ := Option.bind_eq_some_iff.mp related
      exact ⟨key.fields, key.references, parent,
        exists_key_iff.mp ⟨key, isObject, isKey, found, rfl, rfl⟩,
        relation_eq_iff.mp (Option.some.inj related)⟩
    · exact absurd related (Option.some_ne_none _).symm
  · intro ofKey
    obtain ⟨fields, references, parent, holds, isOf⟩ := ofKey
    obtain ⟨key, isObject, isKey, found, rfl, rfl⟩ := exists_key_iff.mpr holds
    simp [relation?, isObject, isKey, found, relation_eq_iff.mpr isOf]

theorem relation?_eq_none_iff
    : (ofSchema schema).relation? model field = none
      ↔ ∀ fields references parent, ¬field.HoldsKey schema fields references parent := by
  constructor
  · intro none fields references parent holds
    obtain ⟨key, isObject, isKey, found, -, -⟩ := exists_key_iff.mpr holds
    simp [relation?, isObject, isKey, found] at none
  · intro noKey
    refine Option.eq_none_iff_forall_ne_some.mpr fun relation related => ?_
    obtain ⟨fields, references, parent, holds, -⟩ := relation?_eq_some_iff.mp related
    exact noKey fields references parent holds

end Lookup

/-- A field that becomes a column is of another kind than one that holds a key. -/
theorem Field.HoldsKey.not_becomesColumn {schema : Schema} {field : Field}
    {fields references : List String} {parent : Model}
    (holds : field.HoldsKey schema fields references parent)
    : ¬field.BecomesColumn schema := by
  intro becomes
  rcases becomes with isScalar | isEnum
  · exact FieldKind.noConfusion (holds.isObject.unique isScalar)
  · exact FieldKind.noConfusion (holds.isObject.unique isEnum)

-----------------------------------------------------------------------------------------
-- All fields of a schema
-----------------------------------------------------------------------------------------

/-- The fields of a schema, each with its model, in model order and then field order. -/
def Schema.ownedFields (schema : Schema) : List (Model × Field) :=
  schema.models.flatMap fun model => model.fields.map (model, ·)

/-- What a run of fields yields: each becomes a column, or makes the relation of the key that it
holds, or neither, and what they yield keeps their order.
-/
inductive Schema.Yields (schema : Schema)
    : List (Model × Field) → List Column → List Relation → Prop
  | nil : schema.Yields [] [] []
  | column {model field rest columns relations} (becomes : field.BecomesColumn schema)
    (behind : schema.Yields rest columns relations)
    : schema.Yields ((model, field) :: rest) (field.toColumn :: columns) relations
  | relation {model field fields references parent relation rest columns relations}
    (holds : field.HoldsKey schema fields references parent)
    (isOf : Relation.IsOf schema model field fields references parent relation)
    (behind : schema.Yields rest columns relations)
    : schema.Yields ((model, field) :: rest) columns (relation :: relations)
  | neither {model field rest columns relations} (noColumn : ¬field.BecomesColumn schema)
    (noKey : ∀ fields references parent, ¬field.HoldsKey schema fields references parent)
    (behind : schema.Yields rest columns relations)
    : schema.Yields ((model, field) :: rest) columns relations

namespace Schema

theorem flatMap_columns_eq (schema : Schema) (lookup : Lookup)
    : schema.models.flatMap (Model.columns lookup)
      = (schema.ownedFields.filter fun owned => lookup.isColumn owned.2).map
          fun owned => owned.2.toColumn := by
  rw [ownedFields, List.filter_flatMap, List.map_flatMap]
  refine congrArg (schema.models.flatMap ·) (funext fun model => ?_)
  rw [List.filter_map, List.map_map]
  rfl

/-- What is gathered model by model is gathered from the fields of the schema. -/
theorem flatMap_filterMap_fields {α : Type} (schema : Schema) (f : Model → Field → Option α)
    : (schema.models.flatMap fun model => model.fields.filterMap (f model))
      = schema.ownedFields.filterMap fun owned => f owned.1 owned.2 := by
  rw [ownedFields, List.filterMap_flatMap]
  refine congrArg (schema.models.flatMap ·) (funext fun model => ?_)
  rw [List.filterMap_map]
  rfl

theorem relations_eq_filterMap (schema : Schema) (lookup : Lookup)
    : schema.relations lookup
      = schema.ownedFields.filterMap fun owned => lookup.relation? owned.1 owned.2 :=
  schema.flatMap_filterMap_fields lookup.relation?

/-- What a run of fields yields is what the two filters leave of it. -/
theorem Yields.eq_filters {schema : Schema} {owned : List (Model × Field)}
    {columns : List Column} {relations : List Relation}
    (yields : schema.Yields owned columns relations)
    : columns = (owned.filter fun o => (Lookup.ofSchema schema).isColumn o.2).map
        (fun o => o.2.toColumn)
      ∧ relations = owned.filterMap fun o => (Lookup.ofSchema schema).relation? o.1 o.2 := by
  induction yields with
  | nil => exact ⟨rfl, rfl⟩
  | @column model field _ _ _ becomes _ ih =>
      have noRelation : (Lookup.ofSchema schema).relation? model field = none :=
        Lookup.relation?_eq_none_iff.mpr fun _ _ _ holds => holds.not_becomesColumn becomes
      have isColumn := Lookup.isColumn_iff.mpr becomes
      simp [isColumn, noRelation, ih.1, ih.2]
  | relation holds isOf _ ih =>
      have related := Lookup.relation?_eq_some_iff.mpr ⟨_, _, _, holds, isOf⟩
      have notColumn := mt Lookup.isColumn_iff.mp holds.not_becomesColumn
      simp [notColumn, related, ih.1, ih.2]
  | @neither model field _ _ _ noColumn noKey _ ih =>
      have noRelation : (Lookup.ofSchema schema).relation? model field = none :=
        Lookup.relation?_eq_none_iff.mpr noKey
      have notColumn := mt Lookup.isColumn_iff.mp noColumn
      simp [notColumn, noRelation, ih.1, ih.2]

/-- The two filters never both keep a field, so they make up one pass over the fields. -/
theorem yields_filters (schema : Schema) (owned : List (Model × Field))
    : schema.Yields owned
        ((owned.filter fun o => (Lookup.ofSchema schema).isColumn o.2).map fun o => o.2.toColumn)
        (owned.filterMap fun o => (Lookup.ofSchema schema).relation? o.1 o.2) := by
  induction owned with
  | nil => exact .nil
  | cons o rest ih =>
      obtain ⟨model, field⟩ := o
      rw [List.filter_cons, List.filterMap_cons]
      cases related : (Lookup.ofSchema schema).relation? model field with
      | some relation =>
          obtain ⟨fields, references, parent, holds, isOf⟩ :=
            Lookup.relation?_eq_some_iff.mp related
          have notColumn := mt Lookup.isColumn_iff.mp holds.not_becomesColumn
          rw [if_neg notColumn]
          exact .relation holds isOf ih
      | none =>
          split
          · rename_i isColumn
            exact .column (Lookup.isColumn_iff.mp isColumn) ih
          · rename_i notColumn
            exact .neither (mt Lookup.isColumn_iff.mpr notColumn)
              (Lookup.relation?_eq_none_iff.mp related) ih

/-- The two filters over the fields of a schema split them as one pass over them does. -/
theorem yields_iff (schema : Schema) (owned : List (Model × Field)) (columns : List Column)
    (relations : List Relation)
    : schema.Yields owned columns relations
      ↔ columns = (owned.filter fun o => (Lookup.ofSchema schema).isColumn o.2).map
          (fun o => o.2.toColumn)
        ∧ relations = owned.filterMap fun o => (Lookup.ofSchema schema).relation? o.1 o.2 := by
  constructor
  · exact Yields.eq_filters
  · rintro ⟨rfl, rfl⟩
    exact schema.yields_filters owned

end Schema

/-- The fields of a schema, in order, yield exactly the columns of its tables and its relations:
a relation for a field that holds the key of a declared model, a column for a field of another
kind, and never both.
-/
theorem yields_iff_document (heading : Heading) (schema : Schema) (columns : List Column)
    (relations : List Relation)
    : schema.Yields schema.ownedFields columns relations
      ↔ columns = (Document.ofSchema heading schema).tables.flatMap Table.columns
        ∧ relations = (Document.ofSchema heading schema).relations := by
  have tables : (Document.ofSchema heading schema).tables.flatMap Table.columns
      = schema.models.flatMap (Model.columns (.ofSchema schema)) :=
    List.flatMap_map ..
  rw [Schema.yields_iff, tables, Schema.flatMap_columns_eq, Document.ofSchema,
    Schema.relations_eq_filterMap]

end SchemaDoc
