/-! The schema document: tables with columns, constraints and indexes, the relations between
them, and enums. Lists keep the order of the declarations they come from.
-/

namespace SchemaDoc

/-- A column of a table. -/
structure Column where
  name : String
  type : String
  nullable : Bool
  default : Option String
  comment : String
  deriving DecidableEq, Repr, Inhabited

/-- What a constraint demands of its columns. -/
inductive ConstraintKind where
  | primaryKey
  | unique
  deriving DecidableEq, Repr, Inhabited

/-- The keyword of a constraint. -/
def ConstraintKind.keyword : ConstraintKind → String
  | primaryKey => "PRIMARY KEY"
  | unique => "UNIQUE"

/-- A list of names in the text of a definition. -/
def columnList (columns : List String) : String := ", ".intercalate columns

/-- A constraint of a table. -/
structure Constraint where
  name : String
  kind : ConstraintKind
  definition : String
  table : String
  columns : List String
  deriving DecidableEq, Repr, Inhabited

namespace Constraint

/-- A constraint whose definition is its keyword with its columns. -/
def ofColumns (kind : ConstraintKind) (name table : String) (columns : List String)
    : Constraint :=
  ⟨name, kind, kind.keyword ++ " (" ++ columnList columns ++ ")", table, columns⟩

/-- The primary key of a table. -/
def primaryKey (table : String) (columns : List String) : Constraint :=
  ofColumns .primaryKey (table ++ "_pkey") table columns

/-- A constraint that no two records agree in all columns, named after them. -/
def unique (table : String) (columns : List String) : Constraint :=
  ofColumns .unique (table ++ "_" ++ "_".intercalate columns ++ "_unique") table columns

end Constraint

/-- An index of a table. -/
structure TableIndex where
  name : String
  definition : String
  table : String
  columns : List String
  deriving DecidableEq, Repr, Inhabited

/-- An index over columns, named after them unless it is given a name. -/
def TableIndex.ofColumns (table : String) (columns : List String) (name : Option String)
    : TableIndex :=
  let name := name.getD (table ++ "_" ++ "_".intercalate columns ++ "_idx")
  ⟨name, "CREATE INDEX " ++ name ++ " ON " ++ table ++ " (" ++ columnList columns ++ ")",
    table, columns⟩

/-- A table. -/
structure Table where
  name : String
  kind : String
  comment : String
  columns : List Column
  constraints : List Constraint
  indexes : List TableIndex
  deriving DecidableEq, Repr, Inhabited

namespace Table

/-- A table that has only a name and a comment. -/
def empty (name comment : String) : Table := ⟨name, "table", comment, [], [], []⟩

/-- The first column with the name given. -/
def column? (table : Table) (name : String) : Option Column :=
  table.columns.find? (·.name == name)

/-- The first primary key. -/
def primaryKey? (table : Table) : Option Constraint :=
  table.constraints.find? (·.kind = .primaryKey)

/-- The constraints that demand distinct records. -/
def uniqueConstraints (table : Table) : List Constraint :=
  table.constraints.filter (·.kind = .unique)

end Table

/-- How many records can stand on one side of a relation. -/
inductive Cardinality where
  | zeroOrOne
  | exactlyOne
  | zeroOrMore
  | oneOrMore
  deriving DecidableEq, Repr, Inhabited

namespace Cardinality

/-- The name of a cardinality in a document. -/
def name : Cardinality → String
  | zeroOrOne => "zero_or_one"
  | exactlyOne => "exactly_one"
  | zeroOrMore => "zero_or_more"
  | oneOrMore => "one_or_more"

/-- The cardinality of a field, which a list decides before an optional mark does. -/
def ofMarks (isList isOptional : Bool) : Cardinality :=
  if isList then zeroOrMore else if isOptional then zeroOrOne else exactlyOne

end Cardinality

/-- A foreign key, from a table to its parent. -/
structure Relation where
  table : String
  columns : List String
  cardinality : Cardinality
  parentTable : String
  parentColumns : List String
  parentCardinality : Cardinality
  definition : String
  deriving DecidableEq, Repr, Inhabited

/-- The text that defines a foreign key. -/
def Relation.foreignKeyDefinition (columns : List String) (parentTable : String)
    (parentColumns : List String)
    : String :=
  "FOREIGN KEY (" ++ columnList columns ++ ") REFERENCES " ++ parentTable ++ "("
    ++ columnList parentColumns ++ ")"

/-- An enum with its values as a database stores them. -/
structure EnumType where
  name : String
  values : List String
  deriving DecidableEq, Repr, Inhabited

/-- Who made a document. -/
structure Driver where
  name : String
  databaseVersion : String
  deriving DecidableEq, Repr, Inhabited

/-- What a document says about itself. -/
structure Heading where
  name : String
  description : String
  driver : Driver
  deriving DecidableEq, Repr, Inhabited

/-- A schema document. -/
structure Document where
  name : String
  description : String
  tables : List Table
  relations : List Relation
  enums : List EnumType
  driver : Driver
  deriving DecidableEq, Repr, Inhabited

/-- The first table with the name given. -/
def Document.table? (document : Document) (name : String) : Option Table :=
  document.tables.find? (·.name == name)

end SchemaDoc
