import SchemaDoc.Document.Columns
import SchemaDoc.Document.Keys
import SchemaDoc.Document.Relations
import SchemaDoc.Stored

/-! The document of a schema, and of an input in either of its two forms. It has a table for every
model, an enum for every enum, and relations; tables and enums keep the order in which they are
declared.
-/

namespace SchemaDoc

-----------------------------------------------------------------------------------------
-- The document of a schema
-----------------------------------------------------------------------------------------

/-- The table of a model. -/
def Model.toTable (lookup : Lookup) (model : Model) : Table :=
  { Table.empty model.tableName (model.documentation.elim "" Documentation.text) with
    columns := model.columns lookup
    constraints := model.constraints
    indexes := model.indexes }

/-- An enum with its external name and its values as they are stored. -/
def Enum.toEnumType (enum : Enum) : EnumType :=
  ⟨enum.externalName, enum.values.map EnumValue.storedName⟩

/-- The document of a schema under a heading. -/
def Document.ofSchema (heading : Heading) (schema : Schema) : Document :=
  let lookup := Lookup.ofSchema schema
  { name := heading.name
    description := heading.description
    tables := schema.models.map (Model.toTable lookup)
    relations := schema.relations lookup
    enums := schema.enums.map Enum.toEnumType
    driver := heading.driver }

-----------------------------------------------------------------------------------------
-- The document of an input
-----------------------------------------------------------------------------------------

/-- Why a conversion fails: a configuration cannot be had from a file, or an input text gives no
schema.
-/
inductive ConversionError where
  | config (error : StoredError ConfigError)
  | input (text : String) (error : InputError)
  deriving DecidableEq, Repr

namespace Document

/-- The document of a schema in text form. -/
def ofSchemaText (config : Config) (text : String) : Except ConversionError Document := do
  let schema ← (Schema.ofText config.isStrict text).mapError fun error =>
    .input text (.schemaText error)
  pure (ofSchema config.heading schema)

/-- The document of a schema that is described in JSON. -/
def ofDescription (config : Config) (text : String) : Except ConversionError Document := do
  let description ← (Description.ofText text).mapError fun error =>
    .input text (.description error)
  pure (ofSchema config.heading description.toSchema)

/-- The document of an input. -/
def ofInput (config : Config) : InputFormat → String → Except ConversionError Document
  | .schemaText => ofSchemaText config
  | .description => ofDescription config

end Document

end SchemaDoc
