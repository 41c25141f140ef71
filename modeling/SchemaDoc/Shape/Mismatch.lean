import SchemaDoc.Text

/-! How a value can fail to have the shape that is wanted, and how a diagnostic says so.
The wording is the same for values of all formats; only the text of a number is theirs.
-/

namespace SchemaDoc.Shape

/-- What a value is. A number that is not whole comes with its text. -/
inductive Found where
  | null
  | bool (b : Bool)
  | integer (n : Int)
  | float (text : String)
  | string (text : String)
  | sequence
  | map
  deriving DecidableEq, Repr

/-- What a value is, as diagnostics state it. -/
def Found.describe : Found → String
  | null => "null"
  | bool b => "boolean `" ++ (if b then "true" else "false") ++ "`"
  | integer n => "integer `" ++ toString n ++ "`"
  | float text => "floating point `" ++ text ++ "`"
  | string text => "string " ++ Text.quoteString text
  | sequence => "sequence"
  | map => "map"

/-- What is wanted of a value. -/
inductive Wanted where
  | string
  | boolean
  | sequence
  | record (name : String)
  | variant
  | nothing
  deriving DecidableEq, Repr

/-- What is wanted, as diagnostics state it. -/
def Wanted.describe : Wanted → String
  | string => "a string"
  | boolean => "a boolean"
  | sequence => "a sequence"
  | record name => "struct " ++ name
  | variant => "string or map"
  | nothing => "unit"

/-- Names to choose from, as diagnostics list them. -/
def oneOf (names : List String) : String :=
  let quoted := names.map fun name => "`" ++ name ++ "`"
  match quoted with
  | [] => "nothing"
  | [only] => only
  | [first, second] => first ++ " or " ++ second
  | all => "one of " ++ ", ".intercalate all

/-- How a value fails to have a shape. -/
inductive Mismatch where
  | missingField (name : String)
  | duplicateField (name : String)
  | unknownField (name : String) (known : List String)
  | unknownVariant (name : String) (known : List String)
  | wrongType (found : Found) (wanted : Wanted)
  | notOneMember
  | tooShort (length : Nat) (record : String) (count : Nat)
  | tooLong (length : Nat)
  deriving DecidableEq, Repr

/-- A mismatch as diagnostics state it. -/
def Mismatch.message : Mismatch → String
  | missingField name => "missing field `" ++ name ++ "`"
  | duplicateField name => "duplicate field `" ++ name ++ "`"
  | unknownField name known =>
      let expected := if known.isEmpty then "there are no fields" else "expected " ++ oneOf known
      "unknown field `" ++ name ++ "`, " ++ expected
  | unknownVariant name known =>
      let expected :=
        if known.isEmpty then "there are no variants" else "expected " ++ oneOf known
      "unknown variant `" ++ name ++ "`, " ++ expected
  | wrongType found wanted =>
      "invalid type: " ++ found.describe ++ ", expected " ++ wanted.describe
  | notOneMember => "invalid value: map, expected map with a single key"
  | tooShort length record count =>
      let elements := if count = 1 then " element" else " elements"
      "invalid length " ++ toString length ++ ", expected struct " ++ record ++ " with "
        ++ toString count ++ elements
  | tooLong length =>
      "invalid length " ++ toString length ++ ", expected fewer elements in array"

end SchemaDoc.Shape
