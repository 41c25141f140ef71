import SchemaDoc.Command.Check
import SchemaDoc.Command.Writing

/-! How an invocation runs: its command, and an error message when that fails. -/

namespace SchemaDoc.Command

open MonadSession

variable {m : Type → Type} [Monad m] [MonadSession m]

/-- What is said about the program. -/
def versionReport : List Terminal.Message :=
  [.header "tblsgen",
    .pair "Version" UsageError.programVersion,
    .pair "Binary" "tblsgen",
    .pair "Build" "debug",
    .blank,
    .heading "Components",
    .pair "tblsgen-schema" UsageError.programVersion,
    .pair "tblsgen-tbls" UsageError.programVersion,
    .blank,
    .dim "https://github.com/pegasusheavy/tblsgen"]

/-- Runs the command of an invocation. -/
def runCommand (invocation : Invocation) : ExceptT CommandError m Unit := do
  match invocation.command with
  | .generate arguments => discard (generateDocument invocation.config arguments)
  | .check arguments => discard (checkSchema invocation.config arguments)
  | .init arguments => createConfig arguments
  | .version => sayAll versionReport

/-- Runs an invocation and gives the code that the program ends with. -/
def run (invocation : Invocation) : m Nat := do
  match ← (runCommand invocation).run with
  | .ok () => pure 0
  | .error error => do
      say (.error error.message)
      pure 1

end SchemaDoc.Command
