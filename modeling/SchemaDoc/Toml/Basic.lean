import SchemaDoc.Binary64.Basic

/-! TOML documents as values that know where they are written.
Tables keep their entries in the order in which they are first written, and know how they came
about, since that decides what may still be added to them.
-/

namespace SchemaDoc.Toml

/-- A part of a text: the number of characters from its start, and from its end, to the end of
the text.
-/
structure Place where
  start : Nat
  stop : Nat
  deriving DecidableEq, Repr, Inhabited

/-- A name in a document and where it is written. -/
structure Key where
  name : String
  place : Place
  deriving DecidableEq, Repr, Inhabited

/-- How a table came about: in braces, under a header, on the way to another table, or as the
front of a dotted name.
-/
inductive Origin where
  | braces
  | header
  | implied
  | dotted
  deriving DecidableEq, Repr, Inhabited

/-- Whether a table is written out as such. -/
def Origin.isExplicit : Origin → Bool
  | braces | header => true
  | implied | dotted => false

/-- A value in a document. Tables under repeated headers stand together. -/
inductive Node where
  | string (place : Place) (text : String)
  | integer (place : Place) (n : Int)
  | float (place : Place) (x : Binary64)
  | boolean (place : Place) (b : Bool)
  | dateTime (place : Place)
  | array (place : Place) (items : List Node)
  | table (origin : Origin) (place : Option Place) (entries : List (Key × Node))
  | tables (items : List Node)
  deriving Repr, Inhabited

/-- A table: how it came about, where it is written, and its entries. -/
structure Table where
  origin : Origin
  place : Option Place
  entries : List (Key × Node)
  deriving Repr, Inhabited

namespace Table

/-- A table as a value. -/
def toNode (table : Table) : Node := .table table.origin table.place table.entries

/-- The value under a name. -/
def get? (table : Table) (name : String) : Option Node :=
  (table.entries.find? (·.1.name == name)).map Prod.snd

/-- Adds an entry behind the others. -/
def add (table : Table) (key : Key) (node : Node) : Table :=
  { table with entries := table.entries ++ [(key, node)] }

/-- Puts a value in place of the one under a name. -/
def replace (table : Table) (name : String) (node : Node) : Table :=
  { table with
    entries := table.entries.map fun entry =>
      if entry.1.name == name then (entry.1, node) else entry }

/-- Takes away the entry with a name. -/
def erase (table : Table) (name : String) : Table :=
  { table with entries := table.entries.filter (·.1.name != name) }

end Table

namespace Node

/-- Where a value is written, as far as it is written in one place. -/
def place? : Node → Option Place
  | string place _ | integer place _ | float place _ | boolean place _ | dateTime place
  | array place _ => some place
  | table _ place _ => place
  | tables items =>
      match items with
      | [] => none
      | first :: rest =>
          match first, (first :: rest).getLast? with
          | .table _ (some first) _, some (.table _ (some last) _) =>
              some ⟨first.start, last.stop⟩
          | _, _ => none

end Node

namespace Table

/-- Changes the table at the end of a path, which is made as far as it does not exist. A dotted
name may not reach into a table that is written out, and nothing reaches into braces or into
values. Of tables under repeated headers the last one is meant, for dotted names too.
-/
def changeAt (isDotted : Bool) (change : Table → Option Table) : List Key → Table → Option Table
  | [], table => change table
  | key :: path, table =>
      match table.get? key.name with
      | none => do
          let child ←
            changeAt isDotted change path ⟨if isDotted then .dotted else .implied, none, []⟩
          some (table.add key child.toNode)
      | some (.table origin place entries) =>
          if origin = .braces ∨ (isDotted ∧ origin.isExplicit) then none
          else do
            let child ← changeAt isDotted change path ⟨origin, place, entries⟩
            some (table.replace key.name child.toNode)
      | some (.tables items) =>
          match items.getLast? with
          | some (.table origin place entries) => do
              let child ← changeAt isDotted change path ⟨origin, place, entries⟩
              some (table.replace key.name (.tables (items.dropLast ++ [child.toNode])))
          | _ => none
      | some _ => none

/-- Adds a value under a dotted name. The table it goes into must not have the name yet, and
must have come about by dotted names itself unless the name has no dots.
-/
def put (path : List Key) (key : Key) (node : Node) (table : Table) : Option Table :=
  changeAt true (fun target =>
    if (target.origin == .dotted) == path.isEmpty then none
    else if (target.get? key.name).isSome then none
    else some (target.add key node)) path table

end Table

end SchemaDoc.Toml
