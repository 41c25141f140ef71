import SchemaDoc.Document.Basic
import SchemaDoc.Input

/-! The configuration of a conversion: what the document says about itself, how strictly schema
text is read, and where input and output are.
-/

namespace SchemaDoc

/-- The name and description that a document gets. -/
structure DocumentConfig where
  name : String
  description : String
  deriving DecidableEq, Repr, Inhabited

/-- The input: its path and its form. -/
structure InputConfig where
  path : String
  format : InputFormat
  deriving DecidableEq, Repr, Inhabited

/-- The output: its path, and whether it is indented. -/
structure OutputConfig where
  path : String
  isPretty : Bool
  deriving DecidableEq, Repr, Inhabited

/-- A configuration. -/
structure Config where
  document : DocumentConfig
  driver : Driver
  isStrict : Bool
  input : InputConfig
  output : OutputConfig
  deriving DecidableEq, Repr, Inhabited

namespace Config

/-- The configuration that holds where nothing else is said. -/
def standard : Config :=
  { document := ⟨"Database Schema", "Generated from Prisma schema"⟩
    driver := ⟨"prisma", "1.0.0"⟩
    isStrict := false
    input := ⟨"schema.prisma", .schemaText⟩
    output := ⟨"schema.json", true⟩ }

/-- What documents say about themselves. -/
def heading (config : Config) : Heading :=
  ⟨config.document.name, config.document.description, config.driver⟩

end Config

/-- The schema that an input gives under a configuration. -/
def Config.schemaOf (config : Config) (format : InputFormat) (input : String)
    : Except InputError Schema :=
  Schema.ofInput format config.isStrict input

end SchemaDoc
