import SchemaDoc.Config.Basic
import SchemaDoc.Config.Expansion
import SchemaDoc.Toml.Document
import SchemaDoc.Toml.Shaped

/-! Configurations read from TOML text. Every part may be left out and then is as in the
standard configuration; a part that has no meaning is refused.
-/

namespace SchemaDoc

open Shape Toml Toml.Node

/-- The parts of the section on the document. -/
def DocumentConfig.shape : RecordShape Node Toml.Fault DocumentConfig :=
  { name := "DocumentConfig"
    start := Config.standard.document
    slots :=
      [.optional "name" asText fun document name => { document with name },
        .optional "desc" asText fun document description => { document with description }] }

/-- The parts of the section on the maker of documents. -/
def Driver.configShape : RecordShape Node Toml.Fault Driver :=
  { name := "DriverConfig"
    start := Config.standard.driver
    slots :=
      [.optional "name" asText fun driver name => { driver with name },
        .optional "database_version" asText fun driver databaseVersion =>
          { driver with databaseVersion }] }

/-- The only part of the section on reading schema text: whether it is strict. -/
def Config.lexerShape : RecordShape Node Toml.Fault Bool :=
  { name := "LexerConfig"
    start := Config.standard.isStrict
    slots := [.optional "strict" asFlag fun _ isStrict => isStrict] }

/-- The forms of input by name. -/
def InputFormat.variants : List (String × InputFormat) :=
  InputFormat.all.map fun format => (format.name, format)

/-- The parts of the section on the input. -/
def InputConfig.shape : RecordShape Node Toml.Fault InputConfig :=
  { name := "InputConfig"
    start := Config.standard.input
    slots :=
      [.optional "path" asText fun input path => { input with path },
        .optional "format" (asVariant InputFormat.variants) fun input format =>
          { input with format }] }

/-- The parts of the section on the output. -/
def OutputConfig.shape : RecordShape Node Toml.Fault OutputConfig :=
  { name := "OutputConfig"
    start := Config.standard.output
    slots :=
      [.optional "path" asText fun output path => { output with path },
        .optional "pretty" asFlag fun output isPretty => { output with isPretty }] }

namespace Config

/-- The sections of a configuration. -/
def shape : RecordShape Node Toml.Fault Config :=
  { name := "TblsConfig"
    start := standard
    slots :=
      [.optional "document" (asRecord DocumentConfig.shape) fun config document =>
          { config with document },
        .optional "driver" (asRecord Driver.configShape) fun config driver =>
          { config with driver },
        .optional "lexer" (asRecord lexerShape) fun config isStrict =>
          { config with isStrict },
        .optional "input" (asRecord InputConfig.shape) fun config input =>
          { config with input },
        .optional "output" (asRecord OutputConfig.shape) fun config output =>
          { config with output }] }

end Config

/-- Why a text gives no configuration: it is no TOML, or something in it does not fit. Faults
are in the text with its placeholders replaced.
-/
inductive ConfigError where
  | malformed
  | misfit (text : String) (fault : Toml.Fault)
  deriving DecidableEq, Repr

namespace ConfigError

/-- What diagnostics state about every error of a configuration text. -/
def summary : String := "failed to parse TOML"

/-- What lies behind an error. What makes a text no TOML is not told. -/
def cause : ConfigError → String
  | malformed => "TOML parse error\n"
  | misfit text fault => fault.message text

end ConfigError

namespace Config

/-- The configuration that a text without placeholders gives. -/
def ofToml (text : String) : Except ConfigError Config :=
  match documentOf? text with
  | none => .error .malformed
  | some root => (asRecord shape root.toNode).mapError (.misfit text)

/-- The configuration that a text gives. -/
def ofText (environment : Environment) (text : String) : Except ConfigError Config :=
  ofToml (expand environment text)

end Config

end SchemaDoc
