import SchemaDoc.Json.Written.Value

/-! The values of JSON texts, and what is left to check of a value that nobody wants.
An object becomes its members in order of their names, and of repeated ones the last counts.
-/

namespace SchemaDoc.Json

/-- Puts a member into a list that is in order of names; it replaces one of its own name. -/
def insertMember (name : String) (value : Json) : List (String × Json) → List (String × Json)
  | [] => [(name, value)]
  | (other, otherValue) :: members =>
      if name < other then (name, value) :: (other, otherValue) :: members
      else if name = other then (name, value) :: members
      else (other, otherValue) :: insertMember name value members

/-- Members in order of names, each name once with its last value. -/
def sortMembers (members : List (String × Json)) : List (String × Json) :=
  members.foldl (fun sorted (name, value) => insertMember name value sorted) []

/-- Refuses an end in a fault. -/
def Ending.check (ending : Ending) : Except Fault Unit := ending.fault.elim (.ok ()) .error

namespace Written

mutual

/-- The value of a text, or the first fault in it. -/
def toJson : Written → Except Fault Json
  | null => .ok .null
  | bool b => .ok (.bool b)
  | number n => .ok (.number n)
  | string text => .ok (.string text)
  | array items ending => do
      let items ← toJsonItems items
      ending.check
      .ok (.array items)
  | object members ending => do
      let members ← toJsonMembers members
      ending.check
      .ok (.object (sortMembers members))
  | doubtful fault _ => .error fault
  | broken fault => .error fault

/-- The values of items, or the first fault in them. -/
def toJsonItems : List Written → Except Fault (List Json)
  | [] => .ok []
  | item :: items => do
      let item ← toJson item
      let items ← toJsonItems items
      .ok (item :: items)

/-- The names and values of members, or the first fault in them. -/
def toJsonMembers
    : List (Except Fault String × Written) → Except Fault (List (String × Json))
  | [] => .ok []
  | (name, value) :: members => do
      let name ← name
      let value ← toJson value
      let members ← toJsonMembers members
      .ok ((name, value) :: members)

end

/-- The fault that stops a reader that passes over a value; a number that is cut short is then
no number at all.
-/
def skipFault (fault : Fault) : Fault :=
  if fault.flaw = .endInNumber then { fault with flaw := .invalidNumber } else fault

mutual

/-- Passes over a value: doubts do not matter, and only a broken part stops it. -/
def skip : Written → Except Fault Unit
  | array items ending => do
      skipItems items
      ending.check
  | object members ending => do
      skipMembers members
      ending.check
  | doubtful _ value => skip value
  | broken fault => .error (skipFault fault)
  | _ => .ok ()

/-- Passes over items. -/
def skipItems : List Written → Except Fault Unit
  | [] => .ok ()
  | item :: items => do
      skip item
      skipItems items

/-- Passes over members. -/
def skipMembers : List (Except Fault String × Written) → Except Fault Unit
  | [] => .ok ()
  | (_, value) :: members => do
      skip value
      skipMembers members

end

end Written

/-- The value of a whole text, or the first fault in it. -/
def ofText (text : String) : Except Fault Json := do
  let (value, behind) := Written.ofText text
  let value ← value.toJson
  behind.elim (.ok value) .error

end SchemaDoc.Json
