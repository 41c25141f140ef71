import SchemaDoc.Command.Basic
import SchemaDoc.Command.Error
import SchemaDoc.Command.Session

/-! What commands have in common: how they find their configuration and their input.
Files are only looked at here, never changed.
-/

namespace SchemaDoc.Command

open MonadSession

variable {m : Type → Type} [Monad m] [MonadSession m]

/-- The name of a configuration file. -/
def configName : String := "tblsgen.toml"

/-- The names that stand in placeholders of a configuration text, each with its value. -/
def variablesOf (text : String) : m (List (String × Option String)) :=
  (Config.placeholders text).mapM fun name => do return (name, ← variableValue name)

/-- The variables that a list of them sets. -/
def environmentOf (values : List (String × Option String)) : Config.Environment :=
  fun name => (values.find? (·.1 == name)).bind Prod.snd

/-- Goes on with what has been found, unless that is an error. -/
def orFail {α : Type} (result : Except CommandError α) : ExceptT CommandError m α :=
  match result with
  | .ok x => pure x
  | .error error => throw error

/-- The configuration in a file. -/
def readConfig (path : String) : ExceptT CommandError m Config := do
  let text ← orFail ((← readText path).mapError fun error =>
    .ofConversion (.config (.unreadable path error)))
  let values ← variablesOf text
  orFail ((Config.ofText (environmentOf values) text).mapError fun error =>
    .ofConversion (.config (.invalid error)))

/-- The configuration of a command: in the file named, which has to exist, or else in the
working directory, or else the standard one.
-/
def loadConfig (path : Option String) : ExceptT CommandError m Config := do
  match path with
  | some path =>
      if ← exists? path then readConfig path else throw (.configNotFound path)
  | none => do
      let path := Path.join (← workingDirectory) configName
      if ← exists? path then readConfig path else pure .standard

/-- An input file that exists, its form, and the configuration it is read under. -/
structure Source where
  config : Config
  path : String
  format : InputFormat
  deriving DecidableEq, Repr

/-- The input of a command: what the arguments say comes before what the configuration says. -/
def findSource (configPath : Option String) (arguments : SourceArguments)
    : ExceptT CommandError m Source := do
  let config ← loadConfig configPath
  let path := arguments.schema.getD config.input.path
  if ← exists? path then
    pure ⟨config, path, arguments.format.getD config.input.format⟩
  else throw (.schemaNotFound path)

/-- The text of an input file. -/
def readInput (source : Source) : ExceptT CommandError m String := do
  orFail ((← readText source.path).mapError .file)

end SchemaDoc.Command
