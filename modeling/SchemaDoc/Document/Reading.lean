import SchemaDoc.Document.Basic
import SchemaDoc.Json.ShapedText

/-! Schema documents read back from JSON text.
Every part must be given, save that a column without a default may leave it out.
-/

namespace SchemaDoc

open Shape Json

/-- A list of texts. -/
abbrev Json.Written.asTexts : Written → Except TextError (List String) :=
  Written.asList Written.asText

open Json.Written

/-- The parts of a column. -/
def Column.shape : RecordShape Written TextError Column :=
  { name := "Column"
    start := Inhabited.default
    slots :=
      [.required "name" asText fun column name => { column with name },
        .required "type" asText fun column type => { column with type },
        .required "nullable" asFlag fun column nullable => { column with nullable },
        .listed "default" (asOption asText) fun column text => { column with default := text },
        .required "comment" asText fun column comment => { column with comment }] }

/-- The kinds of constraints by keyword. -/
def ConstraintKind.variants : List (String × ConstraintKind) :=
  [primaryKey, unique].map fun kind => (kind.keyword, kind)

/-- The parts of a constraint. -/
def Constraint.shape : RecordShape Written TextError Constraint :=
  { name := "Constraint"
    start := default
    slots :=
      [.required "name" asText fun constraint name => { constraint with name },
        .required "type" (asVariant ConstraintKind.variants) fun constraint kind =>
          { constraint with kind },
        .required "def" asText fun constraint definition => { constraint with definition },
        .required "table" asText fun constraint table => { constraint with table },
        .required "columns" asTexts fun constraint columns => { constraint with columns }] }

/-- The parts of an index. -/
def TableIndex.shape : RecordShape Written TextError TableIndex :=
  { name := "Index"
    start := default
    slots :=
      [.required "name" asText fun index name => { index with name },
        .required "def" asText fun index definition => { index with definition },
        .required "table" asText fun index table => { index with table },
        .required "columns" asTexts fun index columns => { index with columns }] }

/-- The parts of a table. -/
def Table.shape : RecordShape Written TextError Table :=
  { name := "Table"
    start := default
    slots :=
      [.required "name" asText fun table name => { table with name },
        .required "type" asText fun table kind => { table with kind },
        .required "comment" asText fun table comment => { table with comment },
        .required "columns" (asList (asRecord Column.shape)) fun table columns =>
          { table with columns },
        .required "constraints" (asList (asRecord Constraint.shape)) fun table constraints =>
          { table with constraints },
        .required "indexes" (asList (asRecord TableIndex.shape)) fun table indexes =>
          { table with indexes }] }

/-- The cardinalities by name. -/
def Cardinality.variants : List (String × Cardinality) :=
  [zeroOrOne, exactlyOne, zeroOrMore, oneOrMore].map fun cardinality =>
    (cardinality.name, cardinality)

/-- The parts of a relation. -/
def Relation.shape : RecordShape Written TextError Relation :=
  { name := "Relation"
    start := default
    slots :=
      [.required "table" asText fun relation table => { relation with table },
        .required "columns" asTexts fun relation columns => { relation with columns },
        .required "cardinality" (asVariant Cardinality.variants) fun relation cardinality =>
          { relation with cardinality },
        .required "parent_table" asText fun relation parentTable =>
          { relation with parentTable },
        .required "parent_columns" asTexts fun relation parentColumns =>
          { relation with parentColumns },
        .required "parent_cardinality" (asVariant Cardinality.variants)
          fun relation parentCardinality => { relation with parentCardinality },
        .required "def" asText fun relation definition => { relation with definition }] }

/-- The parts of an enum. -/
def EnumType.shape : RecordShape Written TextError EnumType :=
  { name := "Enum"
    start := default
    slots :=
      [.required "name" asText fun enum name => { enum with name },
        .required "values" asTexts fun enum values => { enum with values }] }

/-- The parts of the maker of a document. -/
def Driver.shape : RecordShape Written TextError Driver :=
  { name := "Driver"
    start := default
    slots :=
      [.required "name" asText fun driver name => { driver with name },
        .required "database_version" asText fun driver databaseVersion =>
          { driver with databaseVersion }] }

/-- The parts of a document. -/
def Document.shape : RecordShape Written TextError Document :=
  { name := "SchemaDocument"
    start := default
    slots :=
      [.required "name" asText fun document name => { document with name },
        .required "desc" asText fun document description => { document with description },
        .required "tables" (asList (asRecord Table.shape)) fun document tables =>
          { document with tables },
        .required "relations" (asList (asRecord Relation.shape)) fun document relations =>
          { document with relations },
        .required "enums" (asList (asRecord EnumType.shape)) fun document enums =>
          { document with enums },
        .required "driver" (asRecord Driver.shape) fun document driver =>
          { document with driver }] }

/-- The document that a JSON text holds. -/
def Document.ofText (text : String) : Except TextError Document :=
  readText (asRecord Document.shape) text

end SchemaDoc
