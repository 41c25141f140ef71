import SchemaDoc.Shape.Record
import SchemaDoc.Binary64.Shortest
import SchemaDoc.Toml.Basic

/-! TOML values read at the shape that is wanted of them.
Every entry of a table must have a slot, and every value that does not fit is told with its
place in the text.
-/

namespace SchemaDoc.Toml

open Shape

/-- How a value fails to be what is wanted. -/
inductive Misfit where
  | mismatch (mismatch : Mismatch)
  | notVariant
  | noMember
  | manyMembers
  | contentNotEmpty
  | contentNotTable (kind : String)
  deriving DecidableEq, Repr

/-- A misfit as diagnostics state it. -/
def Misfit.message : Misfit → String
  | mismatch reason => reason.message
  | notVariant => "wanted string or table"
  | noMember => "wanted exactly 1 element, found 0 elements"
  | manyMembers => "wanted exactly 1 element, more than 1 element"
  | contentNotEmpty => "expected empty table"
  | contentNotTable kind => "expected table, found " ++ kind

/-- A misfit and where it is. -/
structure Fault where
  misfit : Misfit
  place : Option Place
  deriving DecidableEq, Repr

namespace Fault

/-- A fault at a place, unless it has one already. -/
def within (place : Place) (fault : Fault) : Fault :=
  { fault with place := fault.place.or (some place) }

/-- The line of a text that a fault is in, with the place underlined, and what is wrong.
Columns count characters, and the underline bytes, as far as the line goes.
-/
def message (text : String) (fault : Fault) : String :=
  match fault.place with
  | none => fault.misfit.message ++ "\n"
  | some place =>
      let chars := text.toList
      let before := chars.take (chars.length - place.start)
      let inside := (chars.drop (chars.length - place.start)).take (place.start - place.stop)
      let bytes (part : List Char) := part.foldl (fun n c => n + c.utf8Size) 0
      let line := toString (before.count '\n' + 1)
      let front := (before.reverse.takeWhile (· ≠ '\n')).reverse
      let content :=
        front ++ (chars.drop before.length).takeWhile (· ≠ '\n')
      let underlined := max 1 (min (bytes inside) (bytes content - front.length))
      let blanks (n : Nat) := String.ofList (List.replicate n ' ')
      let margin := blanks (line.length + 1) ++ "|"
      "TOML parse error at line " ++ line ++ ", column " ++ toString (front.length + 1) ++ "\n"
        ++ margin ++ "\n"
        ++ line ++ " | " ++ String.ofList content ++ "\n"
        ++ margin ++ blanks (front.length + 1)
        ++ String.ofList (List.replicate underlined '^') ++ "\n"
        ++ fault.misfit.message ++ "\n"

end Fault

namespace Node

/-- What a value is. A date or a time counts as a map. -/
def found : Node → Found
  | string _ text => .string text
  | integer _ n => .integer n
  | float _ x => .float x.toPointed
  | boolean _ b => .bool b
  | array _ _ | tables _ => .sequence
  | table _ _ _ | dateTime _ => .map

/-- The name of what a value is, as diagnostics about variants state it. -/
def kindName : Node → String
  | string _ _ => "string"
  | integer _ _ => "integer"
  | float _ _ => "float"
  | boolean _ _ => "boolean"
  | dateTime _ => "datetime"
  | array _ _ => "array"
  | tables _ => "array of tables"
  | table .braces _ _ => "inline table"
  | table _ _ _ => "table"

/-- Refuses a value. -/
def refuse {α : Type} (node : Node) (misfit : Misfit) : Except Fault α :=
  .error ⟨misfit, node.place?⟩

/-- A text. -/
def asText : Node → Except Fault String
  | string _ text => .ok text
  | node => node.refuse (.mismatch (.wrongType node.found .string))

/-- A truth value. -/
def asFlag : Node → Except Fault Bool
  | boolean _ b => .ok b
  | node => node.refuse (.mismatch (.wrongType node.found .boolean))

/-- One of several names: a text, or a table whose only entry has the name and is an empty
table.
-/
def asVariant {α : Type} (variants : List (String × α)) (node : Node) : Except Fault α :=
  let named (name : String) (place : Option Place) : Except Fault α :=
    match variants.find? (·.1 == name) with
    | some (_, variant) => .ok variant
    | none => .error ⟨.mismatch (.unknownVariant name (variants.map Prod.fst)), place⟩
  match node with
  | string place name => named name (some place)
  | table _ _ [] => node.refuse .noMember
  | table _ _ [(key, content)] => do
      let variant ← named key.name (some key.place)
      match content with
      | table _ _ [] => .ok variant
      | table _ _ _ => content.refuse .contentNotEmpty
      | _ => content.refuse (.contentNotTable content.kindName)
  | table _ _ _ => node.refuse .manyMembers
  | _ => node.refuse .notVariant

/-- The name of the only part that a date or a time has when it is looked into. -/
def dateTimeKey : String := "$__toml_private_datetime"

/-- Reads an entry of a record, which must have a slot. -/
def readEntry {α : Type} (shape : RecordShape Node Fault α) (record : α) (entry : Key × Node)
    : Except Fault α :=
  match shape.slot? entry.1.name with
  | some slot => (slot.put entry.2 record).mapError (Fault.within entry.1.place)
  | none =>
      .error ⟨.mismatch (.unknownField entry.1.name shape.slotNames), some entry.1.place⟩

/-- A record: a table of its slots, or an array that starts with them in order. -/
def asRecord {α : Type} (shape : RecordShape Node Fault α) (node : Node) : Except Fault α :=
  let fitting (result : Except Mismatch Unit) : Except Fault Unit :=
    result.mapError fun mismatch => ⟨.mismatch mismatch, node.place?⟩
  match node with
  | table _ _ entries => do
      let record ← entries.foldlM (readEntry shape) shape.start
      fitting (shape.checkNames (entries.map fun entry => entry.1.name))
      .ok record
  | array _ items | tables items => do
      let record ← shape.ofItems items
      fitting (shape.checkCount items.length)
      .ok record
  | dateTime _ =>
      node.refuse (.mismatch (.unknownField dateTimeKey shape.slotNames))
  | _ => node.refuse (.mismatch (.wrongType node.found (.record shape.name)))

end Node

end SchemaDoc.Toml
