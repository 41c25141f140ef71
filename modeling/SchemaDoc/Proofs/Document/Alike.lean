import SchemaDoc.Document.Assembly
import SchemaDoc.Proofs.Lists
import SchemaDoc.Proofs.Lookup

/-! Schemas that are alike have the same document.
Two fields are alike when nothing that a column or a relation shows tells them apart, once the
enums of their schemas are known; models and schemas are alike piece by piece.
-/

namespace SchemaDoc

-----------------------------------------------------------------------------------------
-- Pieces that are alike
-----------------------------------------------------------------------------------------

/-- The text of documentation as a comment shows it. -/
def Documentation.comment (documentation : Option Documentation) : String :=
  documentation.elim "" Documentation.text

/-- The name that an attribute gives to an index. -/
def Attribute.indexName? (a : Attribute) : Option String :=
  ((a.named? "name").or (a.named? "map")).bind Value.string?

/-- The fields that hold the key of a relation, if the field says which. -/
def Field.keyFields (field : Field) : List String :=
  (field.relationship?.map Relationship.fields).getD []

/-- The fields that the key of a relation refers to, if the field says which. -/
def Field.keyReferences (field : Field) : List String :=
  (field.relationship?.map Relationship.references).getD []

/-- A field without a relation has a key of no fields, and such a key never counts. -/
theorem Field.foreignKey?_eq (field : Field)
    : field.foreignKey?.map (fun key => (key.fields, key.references))
      = (some (field.keyFields, field.keyReferences)).filter
          fun key => !key.1.isEmpty && key.1.length == key.2.length := by
  rw [foreignKey?, keyFields, keyReferences]
  cases field.relationship? with
  | none => rfl
  | some key =>
      rw [Option.map_some, Option.map_some, Option.getD_some, Option.getD_some,
        Option.filter_some, Option.filter_some]
      change _ = if key.isForeignKey = true then _ else _
      cases key.isForeignKey <;> rfl

/-- Two fields, each in its schema, that a document does not tell apart. -/
structure Field.Alike (lookup lookup' : Lookup) (f g : Field) : Prop where
  name : f.name.name = g.name.name
  mappedName : f.mappedName? = g.mappedName?
  typeName : f.type.name = g.type.name
  kind : lookup.kind f = lookup'.kind g
  isList : f.isList = g.isList
  isOptional : f.isOptional = g.isOptional
  isId : f.isId = g.isId
  isUnique : f.isUnique = g.isUnique
  default : f.renderedDefault? = g.renderedDefault?
  comment : Documentation.comment f.documentation = Documentation.comment g.documentation
  keyFields : f.keyFields = g.keyFields
  keyReferences : f.keyReferences = g.keyReferences

/-- Two models, each in its schema, that a document does not tell apart. -/
structure Model.Alike (lookup lookup' : Lookup) (m n : Model) : Prop where
  name : m.name.name = n.name.name
  mappedName : m.mappedName? = n.mappedName?
  comment : Documentation.comment m.documentation = Documentation.comment n.documentation
  fields : List.Forall₂ (Field.Alike lookup lookup') m.fields n.fields
  key
    : (Attribute.find? m.attributes "id").bind Attribute.fieldNames?
      = (Attribute.find? n.attributes "id").bind Attribute.fieldNames?
  uniques
    : (m.attributesNamed "unique").filterMap Attribute.fieldNames?
      = (n.attributesNamed "unique").filterMap Attribute.fieldNames?
  indexes
    : (m.attributesNamed "index").map (fun a => (a.fieldNames?, a.indexName?))
      = (n.attributesNamed "index").map fun a => (a.fieldNames?, a.indexName?)

/-- Two schemas that a document does not tell apart. -/
structure Schema.Alike (s t : Schema) : Prop where
  models : List.Forall₂ (Model.Alike (.ofSchema s) (.ofSchema t)) s.models t.models
  enums : s.enums.map Enum.toEnumType = t.enums.map Enum.toEnumType

-----------------------------------------------------------------------------------------
-- Tables
-----------------------------------------------------------------------------------------

namespace Field.Alike

variable {lookup lookup' : Lookup} {f g : Field}

theorem columnName_eq (alike : Field.Alike lookup lookup' f g)
    : f.columnName = g.columnName := by
  rw [columnName, columnName, alike.name, alike.mappedName]

theorem toColumn_eq (alike : Field.Alike lookup lookup' f g) : f.toColumn = g.toColumn := by
  have nullable : f.isNullable = g.isNullable := by
    rw [isNullable, isNullable, alike.isOptional, alike.isId]
  have comment : f.documentation.elim "" Documentation.text
      = g.documentation.elim "" Documentation.text :=
    alike.comment
  rw [toColumn, toColumn, alike.columnName_eq, alike.typeName, alike.isList, nullable,
    alike.default, comment]

theorem isColumn_eq (alike : Field.Alike lookup lookup' f g)
    : lookup.isColumn f = lookup'.isColumn g := by
  rw [Lookup.isColumn, Lookup.isColumn, alike.kind]

theorem cardinality_eq (alike : Field.Alike lookup lookup' f g)
    : f.cardinality = g.cardinality := by
  rw [cardinality, cardinality, alike.isList, alike.isOptional]

theorem refersTo_eq (alike : Field.Alike lookup lookup' f g) (name : String)
    : lookup.refersTo name f = lookup'.refersTo name g := by
  rw [Lookup.refersTo, Lookup.refersTo, alike.kind, alike.typeName]

end Field.Alike

namespace Model.Alike

variable {lookup lookup' : Lookup} {m n : Model}

theorem tableName_eq (alike : Model.Alike lookup lookup' m n)
    : m.tableName = n.tableName := by
  rw [tableName, tableName, alike.name, alike.mappedName]

theorem columns_eq (alike : Model.Alike lookup lookup' m n)
    : m.columns lookup = n.columns lookup' := by
  have columnFields := filter_of_forall₂ alike.fields fun _ _ => Field.Alike.isColumn_eq
  exact map_eq_of_forall₂ columnFields fun _ _ => Field.Alike.toColumn_eq

theorem columnOf_eq (alike : Model.Alike lookup lookup' m n) : m.columnOf = n.columnOf := by
  funext fieldName
  have found : Option.Rel (Field.Alike lookup lookup') (m.field? fieldName)
      (n.field? fieldName) :=
    rel_find? alike.fields fun _ _ related => by rw [related.name]
  exact elim_eq_of_rel _ found fun _ _ => Field.Alike.columnName_eq

/-- The columns that a list of field names stands for, if it is not empty. -/
def columnsOf? (model : Model) (names : List String) : Option (List String) :=
  (some (names.map model.columnOf)).filter (· ≠ [])

theorem listedColumns?_eq (model : Model) (a : Attribute)
    : model.listedColumns? a = a.fieldNames?.bind (columnsOf? model) := by
  rw [listedColumns?]
  cases a.fieldNames? <;> rfl

theorem columnsOf?_eq (alike : Model.Alike lookup lookup' m n)
    : columnsOf? m = columnsOf? n := by
  funext names
  rw [columnsOf?, columnsOf?, alike.columnOf_eq]

theorem keyColumns?_eq (alike : Model.Alike lookup lookup' m n)
    : m.keyColumns? = n.keyColumns? := by
  have listed : (Attribute.find? m.attributes "id").bind m.listedColumns?
      = (Attribute.find? n.attributes "id").bind n.listedColumns? := by
    simp only [funext (listedColumns?_eq _), ← Option.bind_assoc, alike.key,
      alike.columnsOf?_eq]
  have idFields := filter_of_forall₂ alike.fields fun _ _ => Field.Alike.isId
  have marked : m.idFields.map Field.columnName = n.idFields.map Field.columnName :=
    map_eq_of_forall₂ idFields fun _ _ => Field.Alike.columnName_eq
  rw [keyColumns?, keyColumns?, listed, marked]

theorem constraints_eq (alike : Model.Alike lookup lookup' m n)
    : m.constraints = n.constraints := by
  have uniqueFields := filter_of_forall₂ alike.fields fun _ _ => Field.Alike.isUnique
  have marked : (m.fields.filter Field.isUnique).map
        (fun field => Constraint.unique n.tableName [field.columnName])
      = (n.fields.filter Field.isUnique).map
        fun field => Constraint.unique n.tableName [field.columnName] :=
    map_eq_of_forall₂ uniqueFields fun _ _ related => by rw [related.columnName_eq]
  have listed : (m.attributesNamed "unique").filterMap m.listedColumns?
      = (n.attributesNamed "unique").filterMap n.listedColumns? := by
    simp only [funext (listedColumns?_eq _), ← List.filterMap_filterMap, alike.uniques,
      alike.columnsOf?_eq]
  simp only [constraints, alike.tableName_eq, alike.keyColumns?_eq, marked, listed]

theorem indexes_eq (alike : Model.Alike lookup lookup' m n) : m.indexes = n.indexes := by
  have described (model : Model) (a : Attribute)
      : model.index? a
        = (a.fieldNames?.bind (columnsOf? model)).map fun columns =>
            .ofColumns model.tableName columns a.indexName? := by
    rw [← listedColumns?_eq]
    rfl
  have pairs (model : Model)
      : model.indexes
        = ((model.attributesNamed "index").map fun a => (a.fieldNames?, a.indexName?)).filterMap
            fun pair => (pair.1.bind (columnsOf? model)).map fun columns =>
              TableIndex.ofColumns model.tableName columns pair.2 := by
    rw [List.filterMap_map, Model.indexes, funext (described model)]
    rfl
  rw [pairs m, pairs n, alike.indexes, alike.columnsOf?_eq, alike.tableName_eq]

/-- Models that are alike have the same table. -/
theorem toTable_eq (alike : Model.Alike lookup lookup' m n)
    : m.toTable lookup = n.toTable lookup' := by
  have comment : m.documentation.elim "" Documentation.text
      = n.documentation.elim "" Documentation.text :=
    alike.comment
  rw [toTable, toTable, alike.tableName_eq, comment, alike.columns_eq, alike.constraints_eq,
    alike.indexes_eq]

end Model.Alike

-----------------------------------------------------------------------------------------
-- Relations and the whole document
-----------------------------------------------------------------------------------------

namespace Schema.Alike

variable {s t : Schema}

theorem model?_rel (alike : Schema.Alike s t) (name : String)
    : Option.Rel (Model.Alike (.ofSchema s) (.ofSchema t))
        ((Lookup.ofSchema s).model? name) ((Lookup.ofSchema t).model? name) := by
  rw [Lookup.model?_ofSchema, Lookup.model?_ofSchema]
  exact rel_find? alike.models fun _ _ related => by rw [related.name]

/-- Only the fields and the references of a key have a part in its relation. -/
theorem relation_eq {lookup lookup' : Lookup} {m n p q : Model} {f g : Field}
    {key key' : Relationship} (models : Model.Alike lookup lookup' m n)
    (fields : Field.Alike lookup lookup' f g) (parents : Model.Alike lookup lookup' p q)
    (sameFields : key.fields = key'.fields) (sameReferences : key.references = key'.references)
    : lookup.relation m f key p = lookup'.relation n g key' q := by
  have back : lookup.parentCardinality m p = lookup'.parentCardinality n q := by
    rw [Lookup.parentCardinality, Lookup.parentCardinality, models.name]
    have found := rel_find? parents.fields fun _ _ related => related.refersTo_eq n.name.name
    exact elim_eq_of_rel _ found fun _ _ => Field.Alike.cardinality_eq
  simp only [Lookup.relation, back, sameFields, sameReferences, models.columnOf_eq,
    parents.columnOf_eq, models.tableName_eq, parents.tableName_eq, fields.cardinality_eq]

theorem relation?_eq (alike : Schema.Alike s t) {m n : Model} {f g : Field}
    (models : Model.Alike (.ofSchema s) (.ofSchema t) m n)
    (fields : Field.Alike (.ofSchema s) (.ofSchema t) f g)
    : (Lookup.ofSchema s).relation? m f = (Lookup.ofSchema t).relation? n g := by
  have parents := alike.model?_rel f.type.name
  have keys : f.foreignKey?.map (fun key => (key.fields, key.references))
      = g.foreignKey?.map fun key => (key.fields, key.references) := by
    rw [Field.foreignKey?_eq, Field.foreignKey?_eq, fields.keyFields, fields.keyReferences]
  rw [Lookup.relation?, Lookup.relation?, fields.kind, ← fields.typeName]
  generalize (Lookup.ofSchema s).model? f.type.name = parent?,
    (Lookup.ofSchema t).model? f.type.name = parent?' at parents ⊢
  generalize f.foreignKey? = key?, g.foreignKey? = key?' at keys ⊢
  cases key? <;> cases key?' <;>
    simp only [Option.map_none, Option.map_some, reduceCtorEq, Option.some.injEq] at keys
  · rfl
  · obtain ⟨sameFields, sameReferences⟩ := Prod.mk.inj keys
    cases parents with
    | none => rfl
    | some parent => simp [relation_eq models fields parent sameFields sameReferences]

theorem relations_eq (alike : Schema.Alike s t)
    : s.relations (.ofSchema s) = t.relations (.ofSchema t) :=
  flatMap_eq_of_forall₂ alike.models fun _ _ models =>
    filterMap_eq_of_forall₂ models.fields fun _ _ fields => alike.relation?_eq models fields

/-- Schemas that are alike have the same document under every heading. -/
theorem document_eq (alike : Schema.Alike s t) (heading : Heading)
    : Document.ofSchema heading s = Document.ofSchema heading t := by
  have tables : s.models.map (Model.toTable (.ofSchema s))
      = t.models.map (Model.toTable (.ofSchema t)) :=
    map_eq_of_forall₂ alike.models fun _ _ => Model.Alike.toTable_eq
  simp only [Document.ofSchema, tables, alike.relations_eq, alike.enums]

end Schema.Alike

end SchemaDoc
