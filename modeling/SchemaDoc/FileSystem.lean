/-! Files and directories of a system, and how paths lead to them.
A path is a text of parts between slashes; the part `.` stays, and `..` leads back up. With a
slash in front it starts at the top of the system, and else at the working directory.
-/

namespace SchemaDoc

/-- Why a file or a directory cannot be used. -/
inductive FileError where
  | notFound
  | alreadyExists
  | notDirectory
  | isDirectory
  | notText
  | other (message : String)
  deriving DecidableEq, Repr

/-- An error as the system states it. -/
def FileError.message : FileError → String
  | notFound => "No such file or directory (os error 2)"
  | alreadyExists => "File exists (os error 17)"
  | notDirectory => "Not a directory (os error 20)"
  | isDirectory => "Is a directory (os error 21)"
  | notText => "stream did not contain valid UTF-8"
  | other message => message

namespace Path

/-- The parts of a text between slashes. -/
def segments (path : String) : List String :=
  (path.toList.splitOn '/').map String.ofList

/-- The parts of a path that lead somewhere. -/
def parts (path : String) : List String :=
  (segments path).filter fun part => part ≠ "" ∧ part ≠ "."

/-- Whether a path starts at the top of the system. -/
def isAbsolute (path : String) : Bool := path.toList.head? == some '/'

/-- Whether a path can only lead to a directory. -/
def endsInDirectory (path : String) : Bool :=
  match (segments path).getLast? with
  | some last => last == "" || last == "."
  | none => false

/-- The path of a name in a directory. -/
def join (directory name : String) : String :=
  if directory.isEmpty || directory.toList.getLast? == some '/' then directory ++ name
  else directory ++ "/" ++ name

/-- The path to the directory that a path leads into, unless that is where it starts. -/
def parent? (path : String) : Option String :=
  let parent := (if isAbsolute path then "/" else "") ++ "/".intercalate (parts path).dropLast
  if (parts path).isEmpty ∨ parent.isEmpty then none else some parent

end Path

/-- A file that holds text, a file that does not, or a directory. -/
inductive FileNode where
  | text (content : String)
  | binary (content : List UInt8)
  | directory
  deriving DecidableEq, Repr

/-- Where something is in a system: the names that lead to it from the top. -/
abbrev Location := List String

/-- Where a part of a path leads from a location. Nothing is above the top. -/
def Path.step (location : Location) (part : String) : Location :=
  if part = ".." then location.dropLast else location ++ [part]

/-- Files and directories by location, and the location of the working directory. -/
structure FileSystem where
  home : Location
  nodes : List (Location × FileNode)
  deriving DecidableEq, Repr

namespace FileSystem

/-- A system with nothing but an empty working directory. -/
def empty (home : Location) : FileSystem := ⟨home, []⟩

/-- What is at a location. The working directory and those above it always exist. -/
def get? (files : FileSystem) (location : Location) : Option FileNode :=
  if location.isPrefixOf files.home then some .directory
  else (files.nodes.find? (·.1 == location)).map Prod.snd

/-- Puts something at a location, in place of what is there. -/
def put (files : FileSystem) (location : Location) (node : FileNode) : FileSystem :=
  { files with nodes := (location, node) :: files.nodes.filter (·.1 != location) }

@[simp] theorem home_put (files : FileSystem) (location : Location) (node : FileNode)
    : (files.put location node).home = files.home :=
  rfl

/-- What was put at a location is found there, unless that is a directory on the way to the
working directory.
-/
theorem get?_put_self (files : FileSystem) {location : Location} (node : FileNode)
    (h : location.isPrefixOf files.home = false)
    : (files.put location node).get? location = some node := by
  simp [get?, put, h]

/-- Putting something at a location changes no other one. -/
theorem get?_put_of_ne (files : FileSystem) {location other : Location} (node : FileNode)
    (h : location ≠ other)
    : (files.put location node).get? other = files.get? other := by
  simp only [get?, put, List.find?_cons, List.find?_filter]
  have differs : (location == other) = false := by simpa using h
  simp only [differs]
  congr 3
  funext entry
  by_cases same : entry.1 = other
  · simp [same, Ne.symm h]
  · simp [same]

/-- Where a path starts. -/
def start (files : FileSystem) (path : String) : Location :=
  if Path.isAbsolute path then [] else files.home

/-- The location that parts lead to from another one, which need not exist itself. -/
def walk (files : FileSystem) (location : Location) : List String → Except FileError Location
  | [] => .ok location
  | part :: parts =>
      match files.get? location with
      | none => .error .notFound
      | some (.text _) | some (.binary _) => .error .notDirectory
      | some .directory => files.walk (Path.step location part) parts

/-- The location that a path leads to. -/
def locate (files : FileSystem) (path : String) : Except FileError Location :=
  if path.isEmpty then .error .notFound else files.walk (files.start path) (Path.parts path)

/-- Whether a path leads to something. -/
def contains (files : FileSystem) (path : String) : Bool :=
  match files.locate path with
  | .error _ => false
  | .ok location =>
      match files.get? location with
      | none => false
      | some .directory => true
      | some _ => !Path.endsInDirectory path

/-- The text of the file that a path leads to. -/
def readText (files : FileSystem) (path : String) : Except FileError String := do
  let location ← files.locate path
  match files.get? location with
  | none => .error .notFound
  | some .directory => .error .isDirectory
  | some (.text content) =>
      if Path.endsInDirectory path then .error .notDirectory else .ok content
  | some (.binary _) =>
      .error (if Path.endsInDirectory path then .notDirectory else .notText)

/-- Writes a text to the file that a path leads to, which need not exist. -/
def writeText (files : FileSystem) (path content : String) : Except FileError Unit × FileSystem :=
  match files.locate path with
  | .error error => (.error error, files)
  | .ok location =>
      match files.get? location with
      | some .directory => (.error .isDirectory, files)
      | none =>
          if Path.endsInDirectory path then (.error .isDirectory, files)
          else (.ok (), files.put location (.text content))
      | some _ =>
          if Path.endsInDirectory path then (.error .notDirectory, files)
          else (.ok (), files.put location (.text content))

/-- Makes the directories that parts lead through from a location, as far as they are missing.
What has been made before a failure stays, and then the failure is that a file is in the way.
-/
def makeFrom (files : FileSystem) (hasMade : Bool) (location : Location)
    : List String → Except FileError Unit × FileSystem
  | [] => (.ok (), files)
  | part :: parts =>
      let next := Path.step location part
      match files.get? next with
      | some .directory => files.makeFrom hasMade next parts
      | none => (files.put next .directory).makeFrom true next parts
      | some _ =>
          (.error (if hasMade || parts.isEmpty then .alreadyExists else .notDirectory), files)

/-- Makes the directory that a path leads to, and those on the way. -/
def makeDirectories (files : FileSystem) (path : String) : Except FileError Unit × FileSystem :=
  files.makeFrom false (files.start path) (Path.parts path)

/-- Puts something in the working directory at the end of a path without dots, and directories
on the way.
-/
def place (files : FileSystem) (path : String) (node : FileNode) : FileSystem :=
  let parts := Path.parts path
  let (_, below) := files.makeFrom false files.home parts.dropLast
  below.put (files.home ++ parts) node

end FileSystem

end SchemaDoc
