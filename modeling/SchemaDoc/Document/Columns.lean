import SchemaDoc.Binary64.Shortest
import SchemaDoc.Document.Basic
import SchemaDoc.Naming
import SchemaDoc.Schema.Lookup

/-! The columns of a table: one for each field that holds a plain value or an enum value.
A key is never nullable, and a list is stored as a JSON text.
-/

namespace SchemaDoc

/-- The column type of a type name: built-in types have one each, other names keep theirs. -/
def columnType (typeName : String) (isList : Bool) : String :=
  if isList then "JSON"
  else
    match ScalarType.ofName? typeName with
    | some .string => "VARCHAR"
    | some .int => "INTEGER"
    | some .bigInt => "BIGINT"
    | some .float => "FLOAT"
    | some .decimal => "DECIMAL"
    | some .dateTime => "DATETIME"
    | some .boolean => "BOOLEAN"
    | some .json => "JSON"
    | some .bytes => "BLOB"
    | none => typeName

/-- A default as a column shows it; a list has no such form, and zero has no sign. -/
def Value.render? : Value → Option String
  | .call function => some (function ++ "()")
  | .string text => some ("'" ++ text ++ "'")
  | .name symbol => some ("'" ++ symbol ++ "'")
  | .number x => some (if x.isZero then "0" else x.toPlain)
  | .boolean b => some (if b then "true" else "false")
  | .list _ => none

namespace Field

/-- Whether the column of a field may be empty. -/
def isNullable (field : Field) : Bool := field.isOptional && !field.isId

/-- The default of a field as its column shows it. -/
def renderedDefault? (field : Field) : Option String := field.default?.bind Value.render?

/-- The column of a field. -/
def toColumn (field : Field) : Column :=
  { name := field.columnName
    type := columnType field.type.name field.isList
    nullable := field.isNullable
    default := field.renderedDefault?
    comment := field.documentation.elim "" Documentation.text }

end Field

/-- The columns of a model in declaration order. -/
def Model.columns (lookup : Lookup) (model : Model) : List Column :=
  (model.fields.filter lookup.isColumn).map Field.toColumn

end SchemaDoc
