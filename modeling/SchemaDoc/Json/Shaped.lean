import SchemaDoc.Json.Basic
import SchemaDoc.Shape.Record

/-! JSON values read at the shape that is wanted of them.
Members of a record are visited in their order, and those of no slot are passed over.
-/

namespace SchemaDoc

open Shape

/-- What a number is. -/
def Json.Number.found : Json.Number → Found
  | integer n => .integer n
  | float x => .float x.toPointed

namespace Json

/-- What a value is. -/
def found : Json → Found
  | null => .null
  | bool b => .bool b
  | number n => n.found
  | string text => .string text
  | array _ => .sequence
  | object _ => .map

/-- A text. -/
def asText : Json → Except Mismatch String
  | string text => .ok text
  | value => .error (.wrongType value.found .string)

/-- A truth value. -/
def asFlag : Json → Except Mismatch Bool
  | bool b => .ok b
  | value => .error (.wrongType value.found .boolean)

/-- A value that may be null. -/
def asOption {α : Type} (read : Json → Except Mismatch α) : Json → Except Mismatch (Option α)
  | null => .ok none
  | value => (read value).map some

/-- A list of values of one shape. -/
def asList {α : Type} (read : Json → Except Mismatch α) : Json → Except Mismatch (List α)
  | array items => items.mapM read
  | value => .error (.wrongType value.found .sequence)

/-- One of several names: a text, or an object whose only member has the name and is null. -/
def asVariant {α : Type} (variants : List (String × α)) (value : Json) : Except Mismatch α :=
  let named (name : String) : Except Mismatch α :=
    match variants.find? (·.1 == name) with
    | some (_, variant) => .ok variant
    | none => .error (.unknownVariant name (variants.map Prod.fst))
  match value with
  | string name => named name
  | object [(name, null)] => named name
  | object [(name, content)] => do
      let _ ← named name
      .error (.wrongType content.found .nothing)
  | object _ => .error .notOneMember
  | other => .error (.wrongType other.found .variant)

/-- A record: an object of its slots, or an array of them in order. -/
def asRecord {α : Type} (shape : RecordShape Json Mismatch α) : Json → Except Mismatch α
  | object members => do
      let record ← members.foldlM (fun record (name, value) =>
        (shape.slot? name).elim (.ok record) (·.put value record)) shape.start
      shape.checkNames (members.map Prod.fst)
      .ok record
  | array items => do
      let record ← shape.ofItems items
      shape.checkCount items.length
      if shape.slots.length < items.length then .error (.tooLong items.length) else .ok record
  | value => .error (.wrongType value.found (.record shape.name))

end Json

end SchemaDoc
