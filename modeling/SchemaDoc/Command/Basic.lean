import SchemaDoc.Command.Usage

/-! Commands with their arguments, and the command that a command line asks for.
An option that may stand on both sides of a command counts as given behind it if it is.
-/

namespace SchemaDoc

/-- Where a command finds its input and in which form it is, as far as that is said. -/
structure SourceArguments where
  schema : Option String
  format : Option InputFormat
  deriving DecidableEq, Repr

/-- What to write, and where and how, as far as that is said. -/
structure GenerateArguments where
  source : SourceArguments
  output : Option String
  isPretty : Option Bool
  deriving DecidableEq, Repr

/-- Where to write a configuration, and whether to write over one. -/
structure InitArguments where
  path : String
  isForced : Bool
  deriving DecidableEq, Repr

/-- A command with its arguments. -/
inductive Command where
  | generate (arguments : GenerateArguments)
  | check (arguments : SourceArguments)
  | init (arguments : InitArguments)
  | version
  deriving DecidableEq, Repr

/-- What a command line asks for. -/
structure Invocation where
  config : Option String
  isVerbose : Bool
  command : Command
  deriving DecidableEq, Repr

namespace Usage.Reading

/-- The arguments that say where the input is. -/
def source (reading : Reading) : SourceArguments :=
  ⟨reading.value? .schema, (reading.value? .format).bind InputFormat.ofName?⟩

/-- The layout that is asked for, if one is. -/
def isPretty? (reading : Reading) : Option Bool :=
  if reading.has .pretty then some true
  else if reading.has .compact then some false
  else none

/-- The command of a name with the arguments read behind it. -/
def command (reading : Reading) : CommandName → Command
  | .generate => .generate ⟨reading.source, reading.value? .output, reading.isPretty?⟩
  | .check => .check reading.source
  | .init => .init ⟨(reading.value? .path).getD ".", reading.has .force⟩
  | .version => .version

end Usage.Reading

/-- What the words of a command line ask for. -/
def Invocation.ofWords (words : List String) : Except UsageError Invocation := do
  let (front, name, behind) ← Usage.readLine words .start
  .ok
    { config := (behind.value? .config).or (front.value? .config)
      isVerbose := behind.has .verbose || front.has .verbose
      command := behind.command name }

end SchemaDoc
