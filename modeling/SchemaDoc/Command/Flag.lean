import SchemaDoc.Input

/-! The commands of the program, and the options that each of them has.
-/

namespace SchemaDoc

/-- The options of all commands. -/
inductive Flag where
  | config
  | verbose
  | help
  | version
  | schema
  | output
  | format
  | pretty
  | compact
  | path
  | force
  deriving DecidableEq, Repr

namespace Flag

/-- The letter of an option. -/
def short? : Flag → Option Char
  | config => some 'c'
  | verbose => some 'v'
  | help => some 'h'
  | version => some 'V'
  | schema => some 's'
  | output => some 'o'
  | format => some 'f'
  | pretty | compact | path | force => none

/-- The word of an option. The path has neither a letter nor a word. -/
def long? : Flag → Option String
  | config => some "config"
  | verbose => some "verbose"
  | help => some "help"
  | version => some "version"
  | schema => some "schema"
  | output => some "output"
  | format => some "format"
  | pretty => some "pretty"
  | compact => some "compact"
  | force => some "force"
  | path => none

/-- Whether an option has a value. -/
def takesValue : Flag → Bool
  | config | schema | output | format | path => true
  | verbose | help | version | pretty | compact | force => false

/-- Whether a value is good for an option: a form has to be known, a path not to be empty. -/
def accepts (flag : Flag) (value : String) : Bool :=
  match flag with
  | format => (InputFormat.ofName? value).isSome
  | _ => !value.isEmpty

end Flag

/-- The names of commands. -/
inductive CommandName where
  | generate
  | check
  | init
  | version
  deriving DecidableEq, Repr

namespace CommandName

/-- A command as it is called. -/
def text : CommandName → String
  | generate => "generate"
  | check => "check"
  | init => "init"
  | version => "version"

/-- Every command. -/
def all : List CommandName := [generate, check, init, version]

/-- The command that is called by a name. -/
def ofText? (text : String) : Option CommandName := all.find? (·.text == text)

/-- The options of a command, of which the path is given by position. -/
def flags : CommandName → List Flag
  | generate => [.schema, .output, .format, .pretty, .compact]
  | check => [.schema, .format]
  | init => [.path, .force]
  | version => []

end CommandName

/-- The options in front of a command, and behind it as well. -/
def Flag.everywhere : List Flag := [config, verbose, help, version]

end SchemaDoc
