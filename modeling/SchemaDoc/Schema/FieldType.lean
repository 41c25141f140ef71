import SchemaDoc.Text

/-! The types that a field can have, and the kinds they fall into.
A type name that is not built in counts as a model until it is looked up among the enums.
-/

namespace SchemaDoc

/-- The built-in types. -/
inductive ScalarType where
  | string
  | boolean
  | int
  | bigInt
  | float
  | decimal
  | dateTime
  | json
  | bytes
  deriving DecidableEq, Repr, Inhabited

namespace ScalarType

/-- Every built-in type. -/
def all : List ScalarType :=
  [string, boolean, int, bigInt, float, decimal, dateTime, json, bytes]

/-- The name of a built-in type in schema text. -/
def name : ScalarType → String
  | string => "String"
  | boolean => "Boolean"
  | int => "Int"
  | bigInt => "BigInt"
  | float => "Float"
  | decimal => "Decimal"
  | dateTime => "DateTime"
  | json => "Json"
  | bytes => "Bytes"

/-- The built-in type with a name; letter case matters. -/
def ofName? (name : String) : Option ScalarType := all.find? (·.name == name)

/-- Every built-in type is found under its own name. -/
theorem ofName?_name (type : ScalarType) : ofName? type.name = some type := by
  cases type <;> decide

end ScalarType

/-- What a field refers to: a plain value, a model, an enum, or something that the schema
language cannot express.
-/
inductive FieldKind where
  | scalar
  | object
  | enum
  | unsupported
  deriving DecidableEq, Repr, Inhabited

/-- The type of a field. A native type is a plain value whose name is not built in. -/
inductive FieldType where
  | scalar (type : ScalarType)
  | object (name : String)
  | enum (name : String)
  | unsupported (text : String)
  | native (name : String)
  deriving DecidableEq, Repr, Inhabited

namespace FieldType

/-- The type that a name stands for in schema text: a built-in type or a model. -/
def ofName (name : String) : FieldType := (ScalarType.ofName? name).elim (object name) scalar

/-- The kind of a type, before any look-up of its name. -/
def kind : FieldType → FieldKind
  | scalar _ | native _ => .scalar
  | object _ => .object
  | enum _ => .enum
  | unsupported _ => .unsupported

/-- The name of a type; of an unsupported one, its text. -/
def name : FieldType → String
  | scalar type => type.name
  | object name | enum name | unsupported name | native name => name

/-- A type as it is written in schema text. -/
def display : FieldType → String
  | unsupported text => "Unsupported(" ++ Text.quoteString text ++ ")"
  | type => type.name

end FieldType

end SchemaDoc
