import SchemaDoc.Json.Reading
import SchemaDoc.Json.Shaped

/-! JSON texts read at the shape that is wanted of them, from the front of the text to its end.
What is met first counts: a fault in the text behind a wrong value is never seen.
-/

namespace SchemaDoc.Json

open Shape

/-- Why a text does not give what is wanted: it is no JSON, or its value has another shape. -/
inductive TextError where
  | malformed (fault : Fault)
  | mismatch (mismatch : Mismatch)
  deriving DecidableEq, Repr

namespace Written

/-- Goes on unless a fault was met. -/
def sound {α : Type} (result : Except Fault α) : Except TextError α :=
  result.mapError .malformed

/-- Goes on unless there is a mismatch. -/
def fitting {α : Type} (result : Except Mismatch α) : Except TextError α :=
  result.mapError .mismatch

/-- What a value is. An array or object is known by its first character. -/
def found : Written → Except Fault Found
  | null => .ok .null
  | bool b => .ok (.bool b)
  | number n => .ok n.found
  | string text => .ok (.string text)
  | array _ _ | doubtful _ (array _ _) => .ok .sequence
  | object _ _ | doubtful _ (object _ _) => .ok .map
  | doubtful fault _ | broken fault => .error fault

/-- Refuses a value as not what is wanted, unless it is no value at all. -/
def refuse {α : Type} (value : Written) (wanted : Wanted) : Except TextError α := do
  let found ← sound value.found
  .error (.mismatch (.wrongType found wanted))

/-- A text. -/
def asText : Written → Except TextError String
  | string text => .ok text
  | value => value.refuse .string

/-- A truth value. -/
def asFlag : Written → Except TextError Bool
  | bool b => .ok b
  | value => value.refuse .boolean

/-- A value that may be null. -/
def asOption {α : Type} (read : Written → Except TextError α)
    : Written → Except TextError (Option α)
  | null => .ok none
  | value => (read value).map some

/-- A list of values of one shape. -/
def asList {α : Type} (read : Written → Except TextError α)
    : Written → Except TextError (List α)
  | array items ending => do
      let items ← items.mapM read
      sound ending.check
      .ok items
  | doubtful fault (array _ _) => .error (.malformed fault)
  | value => value.refuse .sequence

/-- The flaw of a value that stands where a name or the end of an object should. -/
def unwanted : TextError := .malformed (.taken .expectedValue [])

/-- One of several names: a text, or an object whose only member has the name and is null. -/
def asVariant {α : Type} (variants : List (String × α)) (value : Written)
    : Except TextError α :=
  let named (name : String) : Except TextError α :=
    match variants.find? (·.1 == name) with
    | some (_, variant) => .ok variant
    | none => .error (.mismatch (.unknownVariant name (variants.map Prod.fst)))
  match value with
  | string name => named name
  | object ((name, content) :: members) ending => do
      let variant ← named (← sound name)
      match content with
      | null =>
          if members.isEmpty && !ending.afterComma then do
            sound ending.check
            .ok variant
          else .error unwanted
      | content => content.refuse .nothing
  | object [] ending => do
      sound ending.check
      .error unwanted
  | doubtful fault _ | broken fault => .error (.malformed fault)
  | _ => .error unwanted

/-- Reads the member of a record, unless its slot has been given before. -/
def readMember {α : Type} (shape : RecordShape Written TextError α)
    (state : α × List String) (member : Except Fault String × Written)
    : Except TextError (α × List String) := do
  let (record, given) := state
  let name ← sound member.1
  match shape.slot? name with
  | none => do
      sound member.2.skip
      .ok state
  | some slot =>
      if given.contains name then .error (.mismatch (.duplicateField name))
      else do
        let record ← slot.put member.2 record
        .ok (record, name :: given)

/-- A record: an object of its slots, or an array of them in order. -/
def asRecord {α : Type} (shape : RecordShape Written TextError α)
    : Written → Except TextError α
  | object members ending => do
      let (record, given) ← members.foldlM (readMember shape) (shape.start, [])
      sound ending.check
      fitting (shape.checkNames given)
      .ok record
  | array items ending => do
      let record ← shape.ofItems items
      if items.length < shape.slots.length then do
        sound ending.check
        fitting (shape.checkCount items.length)
        .ok record
      else if shape.slots.length < items.length || ending.afterComma then .error unwanted
      else do
        sound ending.check
        .ok record
  | doubtful fault (array _ _) | doubtful fault (object _ _) => .error (.malformed fault)
  | value => value.refuse (.record shape.name)

end Written

/-- A whole text read at a shape. -/
def readText {α : Type} (read : Written → Except TextError α) (text : String)
    : Except TextError α := do
  let (value, behind) := Written.ofText text
  let result ← read value
  behind.elim (.ok result) fun fault => .error (.malformed fault)

end SchemaDoc.Json
