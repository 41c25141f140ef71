import SchemaDoc.Document.Assembly

/-! Why a command fails, and how it says so: the kind of failure, and everything that lies
behind it.
-/

namespace SchemaDoc

/-- Why a command fails. -/
inductive CommandError where
  | file (error : FileError)
  | configNotFound (path : String)
  | configUnreadable (path : String) (error : FileError)
  | configInvalid (error : ConfigError)
  | schemaNotFound (path : String)
  | schemaInvalid (text : String) (error : InputError)
  | configExists (path : String)
  deriving DecidableEq, Repr

namespace CommandError

/-- The failure of a command whose conversion fails. -/
def ofConversion : ConversionError → CommandError
  | .config (.unreadable path error) => configUnreadable path error
  | .config (.invalid error) => configInvalid error
  | .input text error => schemaInvalid text error

/-- A failure as a command states it. -/
def message : CommandError → String
  | file error => "IO error: " ++ error.message
  | configNotFound path => "Configuration error: Config file not found: " ++ path
  | configUnreadable path error =>
      "Command error: " ++ Config.unreadable path ++ ": " ++ error.message
  | configInvalid error =>
      "Configuration error: " ++ ConfigError.summary ++ ": " ++ error.cause
  | schemaNotFound path => "Configuration error: Schema file not found: " ++ path
  | schemaInvalid text error => "Schema error: " ++ ": ".intercalate (error.messages text)
  | configExists path =>
      "Command error: " ++ path ++ " already exists (use --force to overwrite)"

end CommandError

end SchemaDoc
