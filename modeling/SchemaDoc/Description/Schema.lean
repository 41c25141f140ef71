import SchemaDoc.Description.Basic
import SchemaDoc.Schema.Construction

/-! The schema that a description stands for: every flag becomes the attribute it replaces.
Nothing in it has a place in a text, and declarations keep their order.
-/

namespace SchemaDoc.Description

/-- The value that a described default stands for. An object is a call of the function it
names; null, lists and other objects are no defaults.
-/
def defaultOf : Json → Option Value
  | .string text => some (.string text)
  | .number (.integer n) => some (.number (.ofInt n))
  | .number (.float x) => some (.number x)
  | .bool b => some (.boolean b)
  | .object members =>
      match members.find? (·.1 == "name") with
      | some (_, .string function) => some (.call function)
      | _ => none
  | .null | .array _ => none

/-- The attribute that maps a declaration to a name. -/
def mapping (name : String) : Attribute := .unplaced "map" [.positional (.string name)]

/-- The mapping of a declaration, if it has one. -/
def mappings (name : Option String) : List Attribute := (name.map mapping).toList

/-- A named text among the arguments of an attribute, if there is one. -/
def namedText (key : String) (text : Option String) : List Argument :=
  (text.map fun text => Argument.named key (.string text)).toList

/-- A named list among the arguments of an attribute, unless it is empty. -/
def namedList (key : String) (names : List String) : List Argument :=
  if names.isEmpty then [] else [.named key (.list names)]

/-- Documentation, if there is any. -/
def documented (text : Option String) : Option Documentation :=
  text.map Documentation.unplaced

namespace Field

/-- Whether a described field is optional: as it says, or else when it is not required. -/
def isOptionalField (field : Field) : Bool :=
  (field.isOptional.or (field.isRequired.map not)).getD false

/-- The type of a described field. -/
def type (field : Field) : FieldType :=
  match field.kind with
  | .scalar => (ScalarType.ofName? field.typeName).elim (.native field.typeName) .scalar
  | .object => .object field.typeName
  | .enum => .enum field.typeName
  | .unsupported => .unsupported field.typeName

/-- The default of a described field, unless it says that it has none. -/
def default? (field : Field) : Option Value :=
  if field.hasDefault = some false then none else field.default.bind defaultOf

/-- The arguments of the relation of a described field. -/
def relationArguments (field : Field) : List Argument :=
  namedText "name" field.relationName
    ++ namedList "fields" (field.relationFrom.getD [])
    ++ namedList "references" (field.relationTo.getD [])

/-- The attributes of a described field. It has a relation when something is said about one. -/
def attributes (field : Field) : List Attribute :=
  (if field.isId then [.unplaced "id" []] else [])
    ++ (if field.isUnique then [.unplaced "unique" []] else [])
    ++ (field.default?.map fun value => Attribute.unplaced "default" [.positional value]).toList
    ++ (if field.relationArguments.isEmpty then []
      else [.unplaced "relation" field.relationArguments])
    ++ mappings field.mappedName

/-- A described field. -/
def toField (field : Field) : SchemaDoc.Field :=
  { SchemaDoc.Field.unplaced field.name field.type with
    isList := field.isList
    isOptional := field.isOptionalField
    attributes := field.attributes
    documentation := documented field.documentation }

end Field

/-- A described primary key as an attribute of its model. -/
def Key.toAttribute (key : Key) : Attribute :=
  .unplaced "id" (.named "fields" (.list key.fields) :: namedText "name" key.name)

/-- A described index as an attribute of its model. -/
def Index.toAttribute (index : Index) : Attribute :=
  .unplaced "index"
    (.named "fields" (.list index.fields)
      :: (namedText "name" index.name ++ namedText "map" index.mappedName))

namespace Model

/-- The attributes of a described model; of its indexes only the normal ones count. -/
def attributes (indexes : List Index) (model : Model) : List Attribute :=
  mappings model.mappedName
    ++ (model.primaryKey.map Key.toAttribute).toList
    ++ model.uniqueFields.map
      (fun names => Attribute.unplaced "unique" [.named "fields" (.list names)])
    ++ (indexes.filter fun index => index.model == model.name && index.type == "normal").map
      Index.toAttribute

/-- A described model. -/
def toModel (indexes : List Index) (model : Model) : SchemaDoc.Model :=
  { SchemaDoc.Model.unplaced model.name with
    fields := model.fields.map Field.toField
    attributes := model.attributes indexes
    documentation := documented model.documentation }

end Model

/-- A described value of an enum. -/
def EnumValue.toEnumValue (value : EnumValue) : SchemaDoc.EnumValue :=
  { SchemaDoc.EnumValue.unplaced value.name with
    attributes := mappings value.mappedName
    documentation := documented value.documentation }

/-- A described enum. -/
def Enum.toEnum (enum : Enum) : SchemaDoc.Enum :=
  { SchemaDoc.Enum.unplaced enum.name with
    values := enum.values.map EnumValue.toEnumValue
    attributes := mappings enum.mappedName
    documentation := documented enum.documentation }

/-- The schema that a description stands for. -/
def toSchema (description : Description) : Schema :=
  ⟨description.models.map (Model.toModel description.indexes),
    description.enums.map Enum.toEnum⟩

end SchemaDoc.Description
