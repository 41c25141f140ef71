import SchemaDoc.Description.Reading
import SchemaDoc.Description.Schema
import SchemaDoc.Schema.Reader

/-! The forms in which a data model can be given, and why a text in one of them is refused.
Both forms lead to the same schemas.
-/

namespace SchemaDoc

/-- A form of a data model: schema text, or a description in JSON. -/
inductive InputFormat where
  | schemaText
  | description
  deriving DecidableEq, Repr, Inhabited

namespace InputFormat

/-- The name of a form in a configuration. -/
def name : InputFormat → String
  | schemaText => "dsl"
  | description => "description"

/-- Every form. -/
def all : List InputFormat := [schemaText, description]

/-- The form with a name. -/
def ofName? (name : String) : Option InputFormat := all.find? (·.name == name)

end InputFormat

namespace SourceError

/-- An error in schema text as diagnostics state it. -/
def message : SourceError → String
  | unknownCharacter skipped => skipped.message
  | malformed error => error.message

end SourceError

namespace DescriptionError

/-- An error in a description as diagnostics state it. -/
def message : DescriptionError → String
  | malformed _ | mismatch _ => "failed to read model description"
  | notObject => "invalid model description: expected a JSON object at the top level"
  | contentNotObject => "invalid model description: `datamodel` must be an object"

/-- What lies behind an error in the text of a description. -/
def cause? (text : String) : DescriptionError → Option String
  | malformed fault => some (fault.message text)
  | mismatch reason => some reason.message
  | notObject | contentNotObject => none

end DescriptionError

/-- Why an input gives no schema. -/
inductive InputError where
  | schemaText (error : SourceError)
  | description (error : DescriptionError)
  deriving DecidableEq, Repr

namespace InputError

/-- The messages from an error in an input text down to what lies behind it. -/
def messages (text : String) : InputError → List String
  | schemaText error => [error.message]
  | description error => error.message :: (error.cause? text).toList

end InputError

/-- The schema that an input gives. A strict reading concerns schema text only. -/
def Schema.ofInput (format : InputFormat) (strict : Bool) (text : String)
    : Except InputError Schema :=
  match format with
  | .schemaText => (Schema.ofText strict text).mapError .schemaText
  | .description =>
      ((Description.ofText text).mapError .description).map Description.toSchema

end SchemaDoc
