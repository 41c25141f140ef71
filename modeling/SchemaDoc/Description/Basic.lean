import SchemaDoc.Json.Basic
import SchemaDoc.Schema.FieldType

/-! Descriptions of data models: the flat form in which other tools hand over a schema.
Flags and names stand where schema text has attributes, and indexes stand apart from models.
-/

namespace SchemaDoc.Description

/-- A described field. -/
structure Field where
  name : String
  kind : FieldKind
  typeName : String
  isRequired : Option Bool
  isOptional : Option Bool
  isList : Bool
  isId : Bool
  isUnique : Bool
  hasDefault : Option Bool
  default : Option Json
  relationName : Option String
  relationFrom : Option (List String)
  relationTo : Option (List String)
  mappedName : Option String
  documentation : Option String
  deriving Repr, Inhabited

/-- A described primary key over several fields. -/
structure Key where
  name : Option String
  fields : List String
  deriving DecidableEq, Repr, Inhabited

/-- A described model. -/
structure Model where
  name : String
  mappedName : Option String
  fields : List Field
  primaryKey : Option Key
  uniqueFields : List (List String)
  documentation : Option String
  deriving Repr, Inhabited

/-- A described value of an enum. -/
structure EnumValue where
  name : String
  mappedName : Option String
  documentation : Option String
  deriving DecidableEq, Repr, Inhabited

/-- A described enum. -/
structure Enum where
  name : String
  values : List EnumValue
  mappedName : Option String
  documentation : Option String
  deriving DecidableEq, Repr, Inhabited

/-- A described index of the model it names. -/
structure Index where
  model : String
  type : String
  name : Option String
  mappedName : Option String
  fields : List String
  deriving DecidableEq, Repr, Inhabited

end Description

/-- A description of a data model. -/
structure Description where
  models : List Description.Model
  enums : List Description.Enum
  indexes : List Description.Index
  deriving Repr, Inhabited

end SchemaDoc
