import SchemaDoc.Document.Basic
import SchemaDoc.Naming
import SchemaDoc.Schema.Lookup

/-! The relations of a schema: one for each field that holds a usable foreign key to a declared
model. What the parent sees of it is read off the first field that points back.
-/

namespace SchemaDoc

/-- The cardinality of a field. -/
def Field.cardinality (field : Field) : Cardinality := .ofMarks field.isList field.isOptional

namespace Lookup

/-- Whether a field refers to the model with the name given. -/
def refersTo (lookup : Lookup) (name : String) (field : Field) : Bool :=
  lookup.kind field = .object && field.type.name == name

/-- The cardinality of the first field of the parent that refers to the child. -/
def parentCardinality (lookup : Lookup) (child parent : Model) : Cardinality :=
  (parent.fields.find? (lookup.refersTo child.name.name)).elim .exactlyOne Field.cardinality

/-- The relation from a model to its parent that a foreign key describes. -/
def relation (lookup : Lookup) (model : Model) (field : Field) (key : Relationship)
    (parent : Model)
    : Relation :=
  let columns := key.fields.map model.columnOf
  let parentColumns := key.references.map parent.columnOf
  { table := model.tableName
    columns
    cardinality := field.cardinality
    parentTable := parent.tableName
    parentColumns
    parentCardinality := lookup.parentCardinality model parent
    definition := Relation.foreignKeyDefinition columns parent.tableName parentColumns }

/-- The relation of a field of a model, if it refers to a declared model by a foreign key. -/
def relation? (lookup : Lookup) (model : Model) (field : Field) : Option Relation :=
  if lookup.kind field = .object then do
    let key ← field.foreignKey?
    let parent ← lookup.model? field.type.name
    pure (lookup.relation model field key parent)
  else none

/-- The relations of a model in field order. -/
def relationsOf (lookup : Lookup) (model : Model) : List Relation :=
  model.fields.filterMap (lookup.relation? model)

end Lookup

/-- A foreign key whose target is no declared model. -/
structure UnresolvedRelation where
  model : String
  field : String
  target : String
  deriving DecidableEq, Repr

/-- An unresolved relation as a warning states it. -/
def UnresolvedRelation.message (relation : UnresolvedRelation) : String :=
  "Relation '" ++ relation.field ++ "' in model '" ++ relation.model
    ++ "' references unknown model '" ++ relation.target ++ "'"

namespace Schema

/-- The relations of a schema, in the order of its models and their fields. -/
def relations (schema : Schema) (lookup : Lookup) : List Relation :=
  schema.models.flatMap lookup.relationsOf

/-- The fields with a foreign key whose type names no model, in the same order. Their kind is
not looked at, so a field that becomes a column can be among them.
-/
def unresolvedRelations (schema : Schema) (lookup : Lookup) : List UnresolvedRelation :=
  schema.models.flatMap fun model =>
    model.fields.filterMap fun field =>
      if field.foreignKey?.isSome && (lookup.model? field.type.name).isNone then
        some ⟨model.name.name, field.name.name, field.type.name⟩
      else none

end Schema

end SchemaDoc
