import SchemaDoc.Shape.Mismatch

/-! Records read part by part, from members by name or from items by position.
Reading starts from defaults, and a slot that is given puts its part in. A slot that must be
given and is not refuses the whole, so a default in its place never shows.
-/

namespace SchemaDoc.Shape

/-- Where the part of a slot must be given: among members and items, among items only, or
nowhere.
-/
inductive Presence where
  | required
  | listed
  | optional
  deriving DecidableEq, Repr

/-- A part of a record: its name, and how a value puts it into the record. -/
structure Slot (V ε α : Type) where
  name : String
  presence : Presence
  put : V → α → Except ε α

namespace Slot

variable {V ε α β : Type}

/-- A slot whose part is read and then set. -/
def ofReader (presence : Presence) (name : String) (read : V → Except ε β) (set : α → β → α)
    : Slot V ε α :=
  ⟨name, presence, fun value record => (read value).map (set record)⟩

/-- A slot that must be given. -/
def required : String → (V → Except ε β) → (α → β → α) → Slot V ε α := ofReader .required

/-- A slot that must be given among items. -/
def listed : String → (V → Except ε β) → (α → β → α) → Slot V ε α := ofReader .listed

/-- A slot that need not be given. -/
def optional : String → (V → Except ε β) → (α → β → α) → Slot V ε α := ofReader .optional

end Slot

/-- A record: its name in diagnostics, what its parts are before they are given, and its slots
in the order of items.
-/
structure RecordShape (V ε α : Type) where
  name : String
  start : α
  slots : List (Slot V ε α)

namespace RecordShape

variable {V ε α : Type}

/-- The slot with a name. -/
def slot? (shape : RecordShape V ε α) (name : String) : Option (Slot V ε α) :=
  shape.slots.find? (·.name == name)

/-- The names of all slots. -/
def slotNames (shape : RecordShape V ε α) : List String := shape.slots.map Slot.name

/-- Puts items into slots one by one, until either run out. -/
def fill : List (Slot V ε α) → List V → α → Except ε α
  | slot :: slots, item :: items, record => do fill slots items (← slot.put item record)
  | [], _, record | _ :: _, [], record => .ok record

/-- The record that starts with items. -/
def ofItems (shape : RecordShape V ε α) (items : List V) : Except ε α :=
  fill shape.slots items shape.start

/-- Refuses names that leave out a required slot; the first such slot counts. -/
def checkNames (shape : RecordShape V ε α) (names : List String) : Except Mismatch Unit :=
  match shape.slots.find? fun slot =>
      slot.presence = .required && !names.contains slot.name with
  | some slot => .error (.missingField slot.name)
  | none => .ok ()

/-- Refuses a number of items that leaves out a slot which must be among them; the position of
the first such slot counts.
-/
def checkCount (shape : RecordShape V ε α) (count : Nat) : Except Mismatch Unit :=
  match (shape.slots.drop count).findIdx? (·.presence != .optional) with
  | some position =>
      .error (.tooShort (count + position) shape.name shape.slots.length)
  | none => .ok ()

end RecordShape

end SchemaDoc.Shape
