import SchemaDoc.Command.Run

/-! The program: it runs what its command line asks for, on the files and variables around it. -/

namespace SchemaDoc

/-- What a failure of the system says about a file. -/
def FileError.ofSystem : IO.Error → FileError
  | .noFileOrDirectory .. => .notFound
  | .alreadyExists .. => .alreadyExists
  | .inappropriateType .. => .isDirectory
  | error => .other (toString error)

/-- Does something with files, and tells a failure as a value. -/
def attempt {α : Type} (action : IO α) : IO (Except FileError α) := do
  try
    return .ok (← action)
  catch error =>
    return .error (.ofSystem error)

instance : MonadSession IO where
  workingDirectory := do return (← IO.currentDir).toString
  exists? path := do
    match ← attempt (IO.FS.readBinFile path) with
    | .error .notFound => return false
    | _ => return true
  readText path := do
    match ← attempt (IO.FS.readBinFile path) with
    | .error error => return .error error
    | .ok bytes => return (String.fromUTF8? bytes).elim (.error .notText) .ok
  writeText path content := attempt (IO.FS.writeFile path content)
  makeDirectories path := attempt (IO.FS.createDirAll path)
  variableValue name := IO.getEnv name
  say message :=
    if message.isError then IO.eprint message.render else IO.print message.render

/-- Runs a command line and gives the code that the program ends with. -/
def runWords (words : List String) : IO Nat := do
  match Invocation.ofWords words with
  | .ok invocation => Command.run invocation
  | .error (.version command) => do
      IO.print (UsageError.versionLine command)
      return UsageError.exitCode (.version command)
  | .error error => do
      IO.eprintln error.message
      return error.exitCode

end SchemaDoc

/-- Runs the command line and ends with its code. -/
def main (words : List String) : IO UInt32 := do
  return (← SchemaDoc.runWords words).toUInt32
