import SchemaDoc.Document.Basic
import SchemaDoc.Json.Basic

/-! Schema documents as JSON: every record is an object with its members in a fixed order.
A column without a default has a null default, and no list is left out.
-/

namespace SchemaDoc

/-- A list of names as JSON. -/
def namesToJson (names : List String) : Json := .array (names.map .string)

/-- A column as JSON. -/
def Column.toJson (column : Column) : Json :=
  .object
    [("name", .string column.name),
      ("type", .string column.type),
      ("nullable", .bool column.nullable),
      ("default", column.default.elim .null .string),
      ("comment", .string column.comment)]

/-- A constraint as JSON. -/
def Constraint.toJson (constraint : Constraint) : Json :=
  .object
    [("name", .string constraint.name),
      ("type", .string constraint.kind.keyword),
      ("def", .string constraint.definition),
      ("table", .string constraint.table),
      ("columns", namesToJson constraint.columns)]

/-- An index as JSON. -/
def TableIndex.toJson (index : TableIndex) : Json :=
  .object
    [("name", .string index.name),
      ("def", .string index.definition),
      ("table", .string index.table),
      ("columns", namesToJson index.columns)]

/-- A table as JSON. -/
def Table.toJson (table : Table) : Json :=
  .object
    [("name", .string table.name),
      ("type", .string table.kind),
      ("comment", .string table.comment),
      ("columns", .array (table.columns.map Column.toJson)),
      ("constraints", .array (table.constraints.map Constraint.toJson)),
      ("indexes", .array (table.indexes.map TableIndex.toJson))]

/-- A relation as JSON. -/
def Relation.toJson (relation : Relation) : Json :=
  .object
    [("table", .string relation.table),
      ("columns", namesToJson relation.columns),
      ("cardinality", .string relation.cardinality.name),
      ("parent_table", .string relation.parentTable),
      ("parent_columns", namesToJson relation.parentColumns),
      ("parent_cardinality", .string relation.parentCardinality.name),
      ("def", .string relation.definition)]

/-- An enum as JSON. -/
def EnumType.toJson (enum : EnumType) : Json :=
  .object [("name", .string enum.name), ("values", namesToJson enum.values)]

/-- The maker of a document as JSON. -/
def Driver.toJson (driver : Driver) : Json :=
  .object
    [("name", .string driver.name), ("database_version", .string driver.databaseVersion)]

/-- A document as JSON. -/
def Document.toJson (document : Document) : Json :=
  .object
    [("name", .string document.name),
      ("desc", .string document.description),
      ("tables", .array (document.tables.map Table.toJson)),
      ("relations", .array (document.relations.map Relation.toJson)),
      ("enums", .array (document.enums.map EnumType.toJson)),
      ("driver", document.driver.toJson)]

/-- A document as JSON text. -/
def Document.toText (layout : Json.Layout) (document : Document) : String :=
  document.toJson.toText layout

end SchemaDoc
