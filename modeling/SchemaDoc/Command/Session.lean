import SchemaDoc.FileSystem
import SchemaDoc.Terminal

/-! Where commands run: files, variables, and a terminal that takes messages.
Commands only need these operations. A session is a plain value that has all of them.
-/

namespace SchemaDoc

/-- The operations that commands need. -/
class MonadSession (m : Type → Type) where
  /-- The path of the working directory. -/
  workingDirectory : m String
  /-- Whether a path leads to something. -/
  exists? : String → m Bool
  /-- The text of a file. -/
  readText : String → m (Except FileError String)
  /-- Writes a text to a file. -/
  writeText : String → String → m (Except FileError Unit)
  /-- Makes a directory and those on the way to it. -/
  makeDirectories : String → m (Except FileError Unit)
  /-- The value of a variable. -/
  variableValue : String → m (Option String)
  /-- Says something. -/
  say : Terminal.Message → m Unit

/-- Says several things. -/
def sayAll {m : Type → Type} [Monad m] [MonadSession m] (messages : List Terminal.Message)
    : m Unit :=
  messages.forM MonadSession.say

/-- Operations can be used where errors may be thrown. -/
instance {ε : Type} {m : Type → Type} [Monad m] [MonadSession m]
    : MonadSession (ExceptT ε m) where
  workingDirectory := ExceptT.lift MonadSession.workingDirectory
  exists? path := ExceptT.lift (MonadSession.exists? path)
  readText path := ExceptT.lift (MonadSession.readText path)
  writeText path content := ExceptT.lift (MonadSession.writeText path content)
  makeDirectories path := ExceptT.lift (MonadSession.makeDirectories path)
  variableValue name := ExceptT.lift (MonadSession.variableValue name)
  say message := ExceptT.lift (MonadSession.say message)

/-- A place for commands to run in, and what they have said there so far. -/
structure Session where
  files : FileSystem
  environment : List (String × String)
  said : List Terminal.Message
  deriving Repr

namespace Session

/-- A session with files and without variables, in which nothing has been said. -/
def ofFiles (files : FileSystem) : Session := ⟨files, [], []⟩

/-- Does something with the files of a session. -/
def onFiles {α : Type} (act : FileSystem → α × FileSystem) : StateM Session α := fun session =>
  let (result, files) := act session.files
  (result, { session with files })

instance : MonadSession (StateM Session) where
  workingDirectory := pure "."
  exists? path := do return (← get).files.contains path
  readText path := do return (← get).files.readText path
  writeText path content := onFiles (·.writeText path content)
  makeDirectories path := onFiles (·.makeDirectories path)
  variableValue name := do return ((← get).environment.find? (·.1 == name)).map Prod.snd
  say message := modify fun session => { session with said := session.said ++ [message] }

end Session

end SchemaDoc
