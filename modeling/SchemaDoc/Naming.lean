import SchemaDoc.Schema.Basic

/-! External names: what a declaration is called in the database.
A declaration that is not mapped to a name gets its own name in snake case.
-/

namespace SchemaDoc

namespace Naming

/-- A name in snake case, read behind a character that is or is not a lower-case letter. -/
def foldFrom (afterLower : Bool) : List Char → List Char
  | [] => []
  | c :: rest =>
      let folded := c.toLower :: foldFrom c.isLower rest
      if afterLower && c.isUpper then '_' :: folded else folded

/-- A name in snake case: an underscore goes in front of every capital letter right behind a
small one, then all letters become small. Only the letters of ASCII count.
-/
def snakeCase (name : String) : String := String.ofList (foldFrom false name.toList)

/-- The external name of a declaration: the one it is mapped to, or its own in snake case. -/
def external (declared : String) (mapped : Option String) : String :=
  mapped.getD (snakeCase declared)

/-- The external name of a declaration whose mapping is given by attributes of some name. -/
def resolve (declared : String) (attributes : List Attribute) (mapping : String) : String :=
  external declared ((Attribute.find? attributes mapping).bind Attribute.text?)

end Naming

/-- The name of the table of a model. -/
def Model.tableName (model : Model) : String :=
  Naming.external model.name.name model.mappedName?

/-- The name of the column of a field. -/
def Field.columnName (field : Field) : String :=
  Naming.external field.name.name field.mappedName?

/-- The external name of an enum. -/
def Enum.externalName (enum : Enum) : String := Naming.external enum.name.name enum.mappedName?

/-- The column that a field name stands for in a model: that of its first field of the name,
or the name itself in snake case when there is none.
-/
def Model.columnOf (model : Model) (fieldName : String) : String :=
  (model.field? fieldName).elim (Naming.snakeCase fieldName) Field.columnName

end SchemaDoc
