import SchemaDoc.Config.Basic
import SchemaDoc.Toml.Quoted

/-! Configurations written as TOML text: every section with all its parts, in a fixed order,
and an empty line between sections.
-/

namespace SchemaDoc.Config

/-- A value in a configuration. -/
inductive Setting where
  | text (content : String)
  | flag (b : Bool)
  deriving DecidableEq, Repr

/-- A value as it is written. -/
def Setting.write : Setting → List Char
  | text content => Toml.writeQuoted content
  | flag true => ['t', 'r', 'u', 'e']
  | flag false => ['f', 'a', 'l', 's', 'e']

/-- A named value on a line of its own. -/
def writeLine (name : String) (setting : Setting) : List Char :=
  name.toList ++ [' ', '=', ' '] ++ setting.write ++ ['\n']

/-- A section: its header and its values. -/
def writeSection (name : String) (settings : List (String × Setting)) : List Char :=
  '[' :: name.toList ++ [']', '\n']
    ++ settings.flatMap fun (name, setting) => writeLine name setting

/-- The sections of a configuration with their values. -/
def sections (config : Config) : List (String × List (String × Setting)) :=
  [("document",
      [("name", .text config.document.name), ("desc", .text config.document.description)]),
    ("driver",
      [("name", .text config.driver.name),
        ("database_version", .text config.driver.databaseVersion)]),
    ("lexer", [("strict", .flag config.isStrict)]),
    ("input",
      [("path", .text config.input.path), ("format", .text config.input.format.name)]),
    ("output", [("path", .text config.output.path), ("pretty", .flag config.output.isPretty)])]

/-- A configuration as TOML text. -/
def toToml (config : Config) : String :=
  String.ofList (['\n'].intercalate
    (config.sections.map fun (name, settings) => writeSection name settings))

end SchemaDoc.Config
