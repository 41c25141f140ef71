import SchemaDoc.Command.UsageError

/-! What a command line asks for: its words are read from left to right, at one level in front of
the command and at another behind it, and a line is refused at the first thing wrong in it.
-/

namespace SchemaDoc

namespace Usage

/-- What has been read at one level of a command line: the options with their values, and one
option whose value may still come.
-/
structure Reading where
  given : List (Flag × String)
  pending : Option (Flag × Option String)
  deriving Repr

namespace Reading

/-- Nothing has been read. -/
def start : Reading := ⟨[], none⟩

/-- Whether an option has been given. -/
def has (reading : Reading) (flag : Flag) : Bool := reading.given.any (·.1 = flag)

/-- The value of an option. -/
def value? (reading : Reading) (flag : Flag) : Option String :=
  (reading.given.find? (·.1 = flag)).map Prod.snd

/-- Takes an option with its value. No option may be given twice. -/
def accept (reading : Reading) (flag : Flag) (value : String) : Except UsageError Reading :=
  if reading.has flag then .error .argumentConflict
  else if flag.takesValue && !flag.accepts value then .error .invalidValue
  else .ok { reading with given := reading.given ++ [(flag, value)] }

/-- Takes the option whose value has come; one whose value is missing is refused. -/
def settle (reading : Reading) : Except UsageError Reading :=
  match reading.pending with
  | none => .ok reading
  | some (_, none) => .error .invalidValue
  | some (flag, some value) => accept { reading with pending := none } flag value

/-- Takes an option that stands on its own. -/
def takeFlag (command : Option CommandName) (reading : Reading) (flag : Flag)
    : Except UsageError Reading := do
  let reading ← reading.settle
  match flag with
  | .help => .error .help
  | .version => .error (.version command)
  | flag => reading.accept flag ""

/-- Takes an option with a value, which may still have to come. -/
def takeOption (reading : Reading) (flag : Flag) (value : Option String)
    : Except UsageError Reading := do
  let reading ← reading.settle
  match value with
  | some value => reading.accept flag value
  | none => .ok { reading with pending := some (flag, none) }

/-- Whether the next word is the value of the option in front of it. -/
def awaitsValue (reading : Reading) : Bool :=
  match reading.pending with
  | some (_, none) => true
  | _ => false

end Reading

/-- The options at a level: in front of a command, or behind one. -/
def flagsAt (command : Option CommandName) : List Flag :=
  Flag.everywhere ++ command.elim [] CommandName.flags

/-- Reads a word of letters behind a dash. A letter without a value stands on its own; one with
a value takes the rest of the word, with or without a sign of equality, or else the next word.
-/
def readLetters (command : Option CommandName)
    : List Char → Reading → Except UsageError Reading
  | [], reading => .ok reading
  | letter :: rest, reading =>
      match (flagsAt command).find? (·.short? = some letter) with
      | none => .error .unknownArgument
      | some flag =>
          if flag.takesValue then
            match rest with
            | [] => reading.takeOption flag none
            | '=' :: value => reading.takeOption flag (some (String.ofList value))
            | value => reading.takeOption flag (some (String.ofList value))
          else do
            let reading ← reading.takeFlag command flag
            readLetters command rest reading

/-- Reads a word behind two dashes, which may hold its value behind a sign of equality. -/
def readWord (command : Option CommandName) (word : List Char) (reading : Reading)
    : Except UsageError Reading :=
  let name := String.ofList (word.takeWhile (· ≠ '='))
  let value :=
    match word.dropWhile (· ≠ '=') with
    | [] => none
    | _ :: value => some (String.ofList value)
  match (flagsAt command).find? (·.long? = some name) with
  | none => .error .unknownArgument
  | some flag =>
      if flag.takesValue then reading.takeOption flag value
      else if value.isSome then .error .tooManyValues
      else reading.takeFlag command flag

/-- Reads a word that is given by position behind a command. -/
def readPositional (command : CommandName) (word : String) (reading : Reading)
    : Except UsageError Reading :=
  let isTaken := reading.has .path || reading.pending.any (·.1 = .path)
  if command.flags.contains .path && !isTaken then do
    let reading ← reading.settle
    .ok { reading with pending := some (.path, some word) }
  else .error .unknownArgument

/-- The ways to read a word. -/
inductive Word where
  | separator
  | letters (letters : List Char)
  | word (word : List Char)
  | plain
  deriving DecidableEq, Repr

/-- How a word is read: by the dashes in front of it. A single dash is a plain word. -/
def Word.ofText (text : String) : Word :=
  match text.toList with
  | ['-', '-'] => separator
  | '-' :: '-' :: rest => word rest
  | ['-'] => plain
  | '-' :: rest => letters rest
  | _ => plain

/-- Ends the reading of the words behind a command, which may not ask for both layouts. -/
def Reading.finish (reading : Reading) : Except UsageError Reading := do
  let reading ← reading.settle
  if reading.has .pretty && reading.has .compact then .error .argumentConflict else .ok reading

/-- Reads the words behind a command. Behind a separator all words are given by position. -/
def readBehind (command : CommandName) (isSeparated : Bool)
    : List String → Reading → Except UsageError Reading
  | [], reading => reading.finish
  | text :: rest, reading =>
      let positional := do
        let reading ← readPositional command text reading
        readBehind command isSeparated rest reading
      if isSeparated then positional
      else
        match Word.ofText text with
        | .separator => readBehind command true rest reading
        | .letters letters => do
            let reading ← readLetters (some command) letters reading
            readBehind command false rest reading
        | .word word => do
            let reading ← readWord (some command) word reading
            readBehind command false rest reading
        | .plain =>
            match reading.pending with
            | some (flag, none) =>
                readBehind command false rest
                  { reading with pending := some (flag, some text) }
            | _ => positional

/-- What a request for help is answered with: help on the commands named, if there are such. -/
def readHelp : List String → UsageError
  | [] => .help
  | [name] => if name = "help" ∨ (CommandName.ofText? name).isSome then .help
      else .invalidSubcommand
  | _ => .invalidSubcommand

/-- Reads the words of a whole line: options, a command, and the words behind it. Both levels
of options come back apart.
-/
def readLine : List String → Reading → Except UsageError (Reading × CommandName × Reading)
  | [], reading => do
      let reading ← reading.settle
      .error (if reading.given.isEmpty then .missingArguments else .missingSubcommand)
  | text :: rest, reading =>
      let command :=
        if reading.awaitsValue then none
        else if text = "help" then some (.error (readHelp rest))
        else
          (CommandName.ofText? text).map fun command => do
            let behind ← readBehind command false rest .start
            let reading ← reading.settle
            .ok (reading, command, behind)
      command.getD
        (match Word.ofText text with
          | .separator =>
              match rest with
              | [] => readLine [] reading
              | next :: _ =>
                  .error
                    (if next = "help" ∨ (CommandName.ofText? next).isSome then
                      .unknownArgument
                    else .invalidSubcommand)
          | .letters letters => do
              let reading ← readLetters none letters reading
              readLine rest reading
          | .word word => do
              let reading ← readWord none word reading
              readLine rest reading
          | .plain =>
              match reading.pending with
              | some (flag, none) =>
                  readLine rest { reading with pending := some (flag, some text) }
              | _ => .error .invalidSubcommand)
termination_by words => words.length
decreasing_by all_goals exact Nat.lt_succ_self _

end Usage

end SchemaDoc
