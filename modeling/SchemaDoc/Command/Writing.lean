import SchemaDoc.Command.Source
import SchemaDoc.Config.Writing
import SchemaDoc.Document.Json

/-! The commands that write: the document of a schema, to a file or to the terminal, and the
standard configuration, into a directory. The first says nothing but the document when that goes
to the terminal.
-/

namespace SchemaDoc.Command

open MonadSession

variable {m : Type → Type} [Monad m] [MonadSession m]

/-- Writes a text to a file in a directory, which is made if it is named. -/
def writeIn (directory : Option String) (path content : String) : ExceptT CommandError m Unit := do
  match directory with
  | some directory => orFail ((← makeDirectories directory).mapError .file)
  | none => pure ()
  orFail ((← writeText path content).mapError .file)

-----------------------------------------------------------------------------------------
-- Generating a document
-----------------------------------------------------------------------------------------

/-- The output path that stands for the terminal. -/
def terminalPath : String := "-"

/-- Where a document goes: what the arguments say comes before what the configuration says. -/
def outputPath (arguments : GenerateArguments) (config : Config) : String :=
  arguments.output.getD config.output.path

/-- The layout of a document, which the arguments may choose over the configuration. -/
def outputLayout (arguments : GenerateArguments) (config : Config) : Json.Layout :=
  if arguments.isPretty.getD config.output.isPretty then .indented else .compact

/-- Writes a text with a line break behind it, and makes the directories that the file is in.
-/
def writeOutput (path text : String) : ExceptT CommandError m Unit :=
  writeIn (Path.parent? path) path (text ++ "\n")

/-- What is said once a document has been written. -/
def report (source : Source) (path : String) (document : Document)
    : List Terminal.Message :=
  [.header "Generate tbls Schema",
    .pair "Schema" source.path,
    .pair "Format" source.format.name,
    .pair "Output" path,
    .blank,
    .heading "Document",
    .pair "Tables" (toString document.tables.length),
    .pair "Relations" (toString document.relations.length),
    .pair "Enums" (toString document.enums.length),
    .blank,
    .success ("Wrote " ++ path)]

/-- The input of a command, and the document that it gives. -/
def convertSource (configPath : Option String) (arguments : SourceArguments)
    : ExceptT CommandError m (Source × Document) := do
  let source ← findSource configPath arguments
  let text ← readInput source
  let document ←
    orFail ((Document.ofInput source.config source.format text).mapError .ofConversion)
  pure (source, document)

/-- Writes the document of a schema, and gives it back. -/
def generateDocument (configPath : Option String) (arguments : GenerateArguments)
    : ExceptT CommandError m Document := do
  let (source, document) ← convertSource configPath arguments.source
  let path := outputPath arguments source.config
  let text := document.toText (outputLayout arguments source.config)
  if path = terminalPath then say (.plain text)
  else do
    writeOutput path text
    sayAll (report source path document)
  pure document

-----------------------------------------------------------------------------------------
-- Creating a configuration
-----------------------------------------------------------------------------------------

/-- What can be done once a configuration has been written. -/
def nextSteps : List Terminal.Message :=
  [.heading "Next steps",
    .item ("Point [input] path at your schema (default "
      ++ Config.standard.input.path ++ ")"),
    .item "Run `tblsgen generate` to write the tbls schema document",
    .item ("Use `json://" ++ Config.standard.output.path
      ++ "` as the tbls DSN to render documentation")]

/-- Writes the standard configuration, over another one only when that is asked for. -/
def createConfig (arguments : InitArguments) : ExceptT CommandError m Unit := do
  say (.header "Initialize tblsgen")
  let path := Path.join arguments.path configName
  if (← exists? path) && !arguments.isForced then throw (.configExists path)
  else do
    writeIn (some arguments.path) path Config.standard.toToml
    sayAll ([.success ("Created " ++ path), .blank] ++ nextSteps)

end SchemaDoc.Command
