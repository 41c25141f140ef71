import SchemaDoc.Config.Reading
import SchemaDoc.FileSystem

/-! Schemas and configurations that are stored in files. -/

namespace SchemaDoc

/-- Why a file does not give what is wanted of it. -/
inductive StoredError (ε : Type) where
  | unreadable (path : String) (error : FileError)
  | invalid (error : ε)
  deriving DecidableEq, Repr

/-- Reads a file and then its text. -/
def FileSystem.readStored {ε α : Type} (files : FileSystem) (path : String)
    (read : String → Except ε α)
    : Except (StoredError ε) α :=
  match files.readText path with
  | .error error => .error (.unreadable path error)
  | .ok text => (read text).mapError .invalid

/-- The schema in a file. -/
def Schema.ofFile (files : FileSystem) (path : String) : Except (StoredError SourceError) Schema :=
  files.readStored path (Schema.ofText false)

/-- What a file of schema text is called that cannot be read. -/
def Schema.unreadable (path : String) : String := "failed to read file: " ++ path

/-- The configuration in a file. -/
def Config.ofFile (environment : Config.Environment) (files : FileSystem) (path : String)
    : Except (StoredError ConfigError) Config :=
  files.readStored path (Config.ofText environment)

/-- What a file is called that cannot be read as a configuration. -/
def Config.unreadable (path : String) : String := "failed to access file: " ++ path

end SchemaDoc
