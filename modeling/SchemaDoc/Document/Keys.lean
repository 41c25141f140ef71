import SchemaDoc.Document.Basic
import SchemaDoc.Naming

/-! The constraints and indexes of a table, from attributes of the model and of its fields.
An attribute of the model counts only when it lists at least one field.
-/

namespace SchemaDoc

namespace Model

/-- The columns that an attribute of a model lists, if it lists any. -/
def listedColumns? (model : Model) (a : Attribute) : Option (List String) :=
  (a.fieldNames?.map (·.map model.columnOf)).filter (· ≠ [])

/-- The columns of the primary key: those that the first `@@id` lists, or else those of the
fields marked `@id`.
-/
def keyColumns? (model : Model) : Option (List String) :=
  ((Attribute.find? model.attributes "id").bind model.listedColumns?).or
    ((some (model.idFields.map Field.columnName)).filter (· ≠ []))

/-- The constraints of a model: its primary key, then the unique fields, then what its `@@unique`
attributes list.
-/
def constraints (model : Model) : List Constraint :=
  let table := model.tableName
  (model.keyColumns?.map (Constraint.primaryKey table)).toList
    ++ (model.fields.filter Field.isUnique).map
      (fun field => Constraint.unique table [field.columnName])
    ++ ((model.attributesNamed "unique").filterMap model.listedColumns?).map
      (Constraint.unique table)

/-- The index that an attribute of a model describes, if it lists a field. Its name is the text
under `name`, or under `map` when there is no `name`.
-/
def index? (model : Model) (a : Attribute) : Option TableIndex :=
  let name := ((a.named? "name").or (a.named? "map")).bind Value.string?
  (model.listedColumns? a).map fun columns => .ofColumns model.tableName columns name

/-- The indexes of a model, one for each `@@index`. -/
def indexes (model : Model) : List TableIndex :=
  (model.attributesNamed "index").filterMap model.index?

end Model

end SchemaDoc
