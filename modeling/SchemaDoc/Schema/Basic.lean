import SchemaDoc.Schema.Attribute
import SchemaDoc.Schema.FieldType

/-! Schemas: models with their fields, enums with their values, all in declaration order.
Names may be declared twice; a look-up finds the first declaration.
-/

namespace SchemaDoc

/-- The documentation of a declaration, its lines joined by line breaks. -/
structure Documentation where
  text : String
  span : Span
  deriving DecidableEq, Repr, Inhabited

/-- A field of a model. -/
structure Field where
  name : Ident
  type : FieldType
  isList : Bool
  isOptional : Bool
  attributes : List Attribute
  documentation : Option Documentation
  span : Span
  deriving DecidableEq, Repr, Inhabited

/-- What a `@relation` attribute says: a name, the fields that hold the key, and the fields of
the target that they refer to.
-/
structure Relationship where
  name : Option String
  fields : List String
  references : List String
  deriving DecidableEq, Repr, Inhabited

/-- A relationship can be a foreign key when it pairs its fields with references one by one. -/
def Relationship.isForeignKey (relationship : Relationship) : Bool :=
  !relationship.fields.isEmpty
    && relationship.fields.length == relationship.references.length

/-- What a `@relation` attribute says. Its name may be given by position, and a list that is
missing or not a list counts as empty.
-/
def Attribute.toRelationship (a : Attribute) : Relationship :=
  let names (key : String) := ((a.named? key).bind Value.list?).getD []
  { name := ((a.named? "name").or a.positional?).bind Value.string?
    fields := names "fields"
    references := names "references" }

namespace Field

/-- Whether the field is the key of its model, or a part of it. -/
def isId (field : Field) : Bool := Attribute.occurs field.attributes "id"

/-- Whether the field has distinct values in all records. -/
def isUnique (field : Field) : Bool := Attribute.occurs field.attributes "unique"

/-- The first argument of the first `@default` attribute. -/
def default? (field : Field) : Option Value :=
  (Attribute.find? field.attributes "default").bind Attribute.firstValue?

/-- The name that the field is mapped to. -/
def mappedName? (field : Field) : Option String := Attribute.mappedName? field.attributes

/-- What the first `@relation` attribute says. -/
def relationship? (field : Field) : Option Relationship :=
  (Attribute.find? field.attributes "relation").map Attribute.toRelationship

/-- What the first `@relation` attribute says, if it can be a foreign key. -/
def foreignKey? (field : Field) : Option Relationship :=
  field.relationship?.filter Relationship.isForeignKey

end Field

/-- A model, which becomes a table. -/
structure Model where
  name : Ident
  fields : List Field
  attributes : List Attribute
  documentation : Option Documentation
  span : Span
  deriving DecidableEq, Repr, Inhabited

namespace Model

/-- The first field with the name given. -/
def field? (model : Model) (name : String) : Option Field :=
  model.fields.find? (·.name.name == name)

/-- The fields that are the key or a part of it. -/
def idFields (model : Model) : List Field := model.fields.filter Field.isId

/-- The fields with a `@relation` attribute, whatever it says. -/
def relationFields (model : Model) : List Field :=
  model.fields.filter fun field => Attribute.occurs field.attributes "relation"

/-- The attributes of the whole model with the name given, in source order. -/
def attributesNamed (model : Model) (name : String) : List Attribute :=
  model.attributes.filter (·.isNamed name)

/-- The name that the model is mapped to. -/
def mappedName? (model : Model) : Option String := Attribute.mappedName? model.attributes

end Model

/-- A value of an enum. -/
structure EnumValue where
  name : Ident
  attributes : List Attribute
  documentation : Option Documentation
  span : Span
  deriving DecidableEq, Repr, Inhabited

namespace EnumValue

/-- The name that the value is mapped to. -/
def mappedName? (value : EnumValue) : Option String := Attribute.mappedName? value.attributes

/-- The value as a database stores it: its mapped name, or else its own. -/
def storedName (value : EnumValue) : String := value.mappedName?.getD value.name.name

end EnumValue

/-- An enum, which becomes a type with a fixed list of values. -/
structure Enum where
  name : Ident
  values : List EnumValue
  attributes : List Attribute
  documentation : Option Documentation
  span : Span
  deriving DecidableEq, Repr, Inhabited

namespace Enum

/-- The first value with the name given. -/
def value? (enum : Enum) (name : String) : Option EnumValue :=
  enum.values.find? (·.name.name == name)

/-- The name that the enum is mapped to. -/
def mappedName? (enum : Enum) : Option String := Attribute.mappedName? enum.attributes

end Enum

/-- A schema. -/
structure Schema where
  models : List Model
  enums : List Enum
  deriving DecidableEq, Repr, Inhabited

namespace Schema

/-- The schema that declares nothing. -/
def empty : Schema := ⟨[], []⟩

/-- The declarations of both schemas, those of the first one in front. -/
def append (left right : Schema) : Schema :=
  ⟨left.models ++ right.models, left.enums ++ right.enums⟩

instance : Append Schema := ⟨append⟩

/-- Whether the schema declares nothing. -/
def isEmpty (schema : Schema) : Bool := schema.models.isEmpty && schema.enums.isEmpty

/-- The first model with the name given. -/
def model? (schema : Schema) (name : String) : Option Model :=
  schema.models.find? (·.name.name == name)

/-- The position of the first model with the name given. -/
def modelPosition? (schema : Schema) (name : String) : Option Nat :=
  schema.models.findIdx? (·.name.name == name)

/-- The first enum with the name given. -/
def enum? (schema : Schema) (name : String) : Option Enum :=
  schema.enums.find? (·.name.name == name)

/-- Whether an enum with the name given is declared. -/
def isEnum (schema : Schema) (name : String) : Bool := (schema.enum? name).isSome

/-- The number of fields of all models. -/
def fieldCount (schema : Schema) : Nat :=
  schema.models.foldl (fun n model => n + model.fields.length) 0

/-- The number of fields with a `@relation` attribute. -/
def relationFieldCount (schema : Schema) : Nat :=
  schema.models.foldl (fun n model => n + model.relationFields.length) 0

/-- A one-line summary of what the schema declares. -/
def display (schema : Schema) : String :=
  "Schema(" ++ toString schema.models.length ++ " models, "
    ++ toString schema.enums.length ++ " enums, "
    ++ toString schema.fieldCount ++ " fields, "
    ++ toString schema.relationFieldCount ++ " relations)"

end Schema

end SchemaDoc
