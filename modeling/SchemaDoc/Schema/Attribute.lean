import SchemaDoc.Binary64.Basic
import SchemaDoc.Span

/-! Attributes of declarations, such as `@id` and `@@map("users")`, and how they are read.
Wherever a name or a position could match several times, the first match counts.
-/

namespace SchemaDoc

/-- A name and where it is written. -/
structure Ident where
  name : String
  span : Span
  deriving DecidableEq, Repr, Inhabited

/-- A name that is written nowhere. -/
def Ident.unplaced (name : String) : Ident := ⟨name, .none⟩

/-- The value of an attribute argument. Of a call only the function's name is kept. -/
inductive Value where
  | string (text : String)
  | number (x : Binary64)
  | boolean (b : Bool)
  | list (names : List String)
  | call (function : String)
  | name (name : String)
  deriving DecidableEq, Repr, Inhabited

namespace Value

/-- The text of a string value. -/
def string? : Value → Option String
  | string text => some text
  | _ => none

/-- The names in a list value. -/
def list? : Value → Option (List String)
  | list names => some names
  | _ => none

end Value

/-- An argument of an attribute; one without a name is positional. -/
structure Argument where
  name : Option Ident
  value : Value
  span : Span
  deriving DecidableEq, Repr, Inhabited

/-- An attribute with its arguments in source order. A name may have several parts, joined by
dots.
-/
structure Attribute where
  name : Ident
  arguments : List Argument
  span : Span
  deriving DecidableEq, Repr, Inhabited

namespace Attribute

/-- Whether the attribute has the name given. -/
def isNamed (a : Attribute) (name : String) : Bool := a.name.name == name

/-- The value of the first argument, named or not. -/
def firstValue? (a : Attribute) : Option Value :=
  a.arguments.head?.map Argument.value

/-- The value of the first positional argument. -/
def positional? (a : Attribute) : Option Value :=
  (a.arguments.find? fun argument => argument.name.isNone).map Argument.value

/-- The value of the first argument with the name given. -/
def named? (a : Attribute) (name : String) : Option Value :=
  (a.arguments.find? fun argument =>
    argument.name.map Ident.name == some name).map Argument.value

/-- The list of field names that an attribute on a whole model gives, under the name `fields`
or else by position.
-/
def fieldNames? (a : Attribute) : Option (List String) :=
  ((a.named? "fields").or a.positional?).bind Value.list?

/-- The text given as first argument. -/
def text? (a : Attribute) : Option String := a.firstValue?.bind Value.string?

/-- The first attribute with the name given. -/
def find? (attributes : List Attribute) (name : String) : Option Attribute :=
  attributes.find? (·.isNamed name)

/-- Whether some attribute has the name given. -/
def occurs (attributes : List Attribute) (name : String) : Bool :=
  attributes.any (·.isNamed name)

/-- The name that a declaration is mapped to: the text of its first `map` attribute. -/
def mappedName? (attributes : List Attribute) : Option String :=
  (find? attributes "map").bind text?

end Attribute

end SchemaDoc
