import SchemaDoc.Description.Basic
import SchemaDoc.Json.Reading
import SchemaDoc.Json.Shaped

/-! Descriptions of data models read from JSON.
The whole text is read first, so a fault anywhere in it comes before any wrong shape.
-/

namespace SchemaDoc

open Shape

/-- Why a text gives no description. -/
inductive DescriptionError where
  | malformed (fault : Json.Fault)
  | mismatch (mismatch : Mismatch)
  | notObject
  | contentNotObject
  deriving DecidableEq, Repr

namespace Description

open Json

/-- A list of texts. -/
abbrev texts : Json → Except Mismatch (List String) := asList asText

/-- The kinds of fields by name. -/
def kinds : List (String × FieldKind) :=
  [("scalar", .scalar), ("object", .object), ("enum", .enum), ("unsupported", .unsupported)]

/-- The parts of a described field. -/
def Field.shape : RecordShape Json Mismatch Field :=
  { name := "FieldDesc"
    start := Inhabited.default
    slots :=
      [.required "name" asText fun field name => { field with name },
        .required "kind" (asVariant kinds) fun field kind => { field with kind },
        .required "type" asText fun field typeName => { field with typeName },
        .optional "isRequired" (asOption asFlag) fun field isRequired =>
          { field with isRequired },
        .optional "isOptional" (asOption asFlag) fun field isOptional =>
          { field with isOptional },
        .optional "isList" asFlag fun field isList => { field with isList },
        .optional "isId" asFlag fun field isId => { field with isId },
        .optional "isUnique" asFlag fun field isUnique => { field with isUnique },
        .optional "hasDefaultValue" (asOption asFlag) fun field hasDefault =>
          { field with hasDefault },
        .optional "default" (asOption .ok) fun field value => { field with default := value },
        .optional "relationName" (asOption asText) fun field relationName =>
          { field with relationName },
        .optional "relationFromFields" (asOption texts) fun field relationFrom =>
          { field with relationFrom },
        .optional "relationToFields" (asOption texts) fun field relationTo =>
          { field with relationTo },
        .optional "dbName" (asOption asText) fun field mappedName =>
          { field with mappedName },
        .optional "documentation" (asOption asText) fun field documentation =>
          { field with documentation }] }

/-- The parts of a described primary key. -/
def Key.shape : RecordShape Json Mismatch Key :=
  { name := "PrimaryKeyDesc"
    start := default
    slots :=
      [.optional "name" (asOption asText) fun key name => { key with name },
        .required "fields" texts fun key fields => { key with fields }] }

/-- The parts of a described model. -/
def Model.shape : RecordShape Json Mismatch Model :=
  { name := "ModelDesc"
    start := default
    slots :=
      [.required "name" asText fun model name => { model with name },
        .optional "dbName" (asOption asText) fun model mappedName =>
          { model with mappedName },
        .optional "fields" (asList (asRecord Field.shape)) fun model fields =>
          { model with fields },
        .optional "primaryKey" (asOption (asRecord Key.shape)) fun model primaryKey =>
          { model with primaryKey },
        .optional "uniqueFields" (asList texts) fun model uniqueFields =>
          { model with uniqueFields },
        .optional "documentation" (asOption asText) fun model documentation =>
          { model with documentation }] }

/-- The parts of a described value of an enum. -/
def EnumValue.shape : RecordShape Json Mismatch EnumValue :=
  { name := "EnumValueDesc"
    start := default
    slots :=
      [.required "name" asText fun value name => { value with name },
        .optional "dbName" (asOption asText) fun value mappedName =>
          { value with mappedName },
        .optional "documentation" (asOption asText) fun value documentation =>
          { value with documentation }] }

/-- The parts of a described enum. -/
def Enum.shape : RecordShape Json Mismatch Enum :=
  { name := "EnumDesc"
    start := default
    slots :=
      [.required "name" asText fun enum name => { enum with name },
        .optional "values" (asList (asRecord EnumValue.shape)) fun enum values =>
          { enum with values },
        .optional "dbName" (asOption asText) fun enum mappedName =>
          { enum with mappedName },
        .optional "documentation" (asOption asText) fun enum documentation =>
          { enum with documentation }] }

/-- The only part of a field that an index lists: its name. -/
def Index.fieldShape : RecordShape Json Mismatch String :=
  { name := "IndexFieldDesc"
    start := default
    slots := [.required "name" asText fun _ name => name] }

/-- The parts of a described index. -/
def Index.shape : RecordShape Json Mismatch Index :=
  { name := "IndexDesc"
    start := default
    slots :=
      [.required "model" asText fun index model => { index with model },
        .required "type" asText fun index type => { index with type },
        .optional "name" (asOption asText) fun index name => { index with name },
        .optional "dbName" (asOption asText) fun index mappedName =>
          { index with mappedName },
        .optional "fields" (asList (asRecord fieldShape)) fun index fields =>
          { index with fields }] }

/-- The parts of a description. -/
def shape : RecordShape Json Mismatch Description :=
  { name := "ModelDescription"
    start := default
    slots :=
      [.optional "models" (asList (asRecord Model.shape)) fun description models =>
          { description with models },
        .optional "enums" (asList (asRecord Enum.shape)) fun description enums =>
          { description with enums },
        .optional "indexes" (asList (asRecord Index.shape)) fun description indexes =>
          { description with indexes }] }

/-- The part of a value that describes: the content of its member `datamodel`, or else the
object itself.
-/
def content : Json → Except DescriptionError Json
  | object members =>
      match members.find? (·.1 == "datamodel") with
      | some (_, object content) => .ok (object content)
      | some _ => .error .contentNotObject
      | none => .ok (object members)
  | _ => .error .notObject

/-- The description that a JSON value holds. -/
def ofJson (value : Json) : Except DescriptionError Description := do
  let content ← content value
  (asRecord shape content).mapError .mismatch

/-- The description that a JSON text holds. -/
def ofText (text : String) : Except DescriptionError Description := do
  let value ← (Json.ofText text).mapError .malformed
  ofJson value

end Description

end SchemaDoc
