import SchemaDoc.Command.Flag

/-! What a command line is refused for, and what the program says and ends with when it is.
Requests for help and for the version are answered in the same way, but end well.
-/

namespace SchemaDoc

/-- What a command line is refused for, or answered with instead of running a command. -/
inductive UsageError where
  | argumentConflict
  | unknownArgument
  | invalidSubcommand
  | invalidValue
  | tooManyValues
  | missingSubcommand
  | missingArguments
  | help
  | version (command : Option CommandName)
  deriving DecidableEq, Repr

namespace UsageError

/-- The version of the program. -/
def programVersion : String := "0.4.0"

/-- What a request for the version is answered with. -/
def versionLine (command : Option CommandName) : String :=
  let name := command.elim "tblsgen" fun command => "tblsgen-" ++ command.text
  name ++ " " ++ programVersion ++ "\n"

/-- How the program is called. -/
def usage : String :=
  "Usage: tblsgen [--config PATH] [--verbose] COMMAND\n\n"
    ++ "Commands: " ++ ", ".intercalate (CommandName.all.map CommandName.text)

/-- What the program says instead of running a command. -/
def message : UsageError → String
  | argumentConflict => "error: an option is given twice, or against another one"
  | unknownArgument => "error: there is no such option"
  | invalidSubcommand => "error: there is no such command"
  | invalidValue => "error: an option has no value, or one that it cannot have"
  | tooManyValues => "error: an option that takes no value has one"
  | missingSubcommand => "error: there is no command"
  | missingArguments | help => usage
  | version command => versionLine command

/-- The code that the program ends with. -/
def exitCode : UsageError → Nat
  | help | version _ => 0
  | _ => 2

end UsageError

end SchemaDoc
