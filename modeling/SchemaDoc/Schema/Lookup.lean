import SchemaDoc.Schema.Basic

/-! An index of a schema by declared names, and the kinds of fields once enums are known.
The index keeps each name once, with its first declaration.
-/

namespace SchemaDoc

/-- Values by name, in the order in which their names first came. -/
structure Directory (α : Type) where
  entries : List (String × α)
  deriving Repr

namespace Directory

variable {α : Type}

/-- The directory without entries. -/
def empty : Directory α := ⟨[]⟩

/-- The value under a name. -/
def get? (directory : Directory α) (name : String) : Option α :=
  (directory.entries.find? (·.1 == name)).map Prod.snd

/-- Adds a value under a name that has none yet; a name that has one keeps it. -/
def insertIfNew (directory : Directory α) (name : String) (x : α) : Directory α :=
  if (directory.get? name).isSome then directory else ⟨directory.entries ++ [(name, x)]⟩

/-- Nothing is under any name of the empty directory. -/
@[simp] theorem get?_empty (name : String) : (empty : Directory α).get? name = none := rfl

/-- An insertion shows only under its own name, and only if that had no value. -/
theorem get?_insertIfNew (directory : Directory α) (name other : String) (x : α)
    : (directory.insertIfNew name x).get? other
      = (directory.get? other).or (if name = other then some x else none) := by
  unfold insertIfNew
  split
  next h =>
    obtain ⟨y, hy⟩ := Option.isSome_iff_exists.mp h
    split
    next equal =>
      subst equal
      simp [hy]
    next => simp
  next h =>
    cases hf : directory.entries.find? (·.1 == other) <;>
      by_cases equal : name = other <;> simp [get?, List.find?_append, hf, equal]

/-- The directory of a list of values that carry their names. -/
def ofList (name : α → String) (xs : List α) : Directory α :=
  xs.foldl (fun directory x => directory.insertIfNew (name x) x) empty

end Directory

/-- The models and the enums of a schema by declared name. -/
structure Lookup where
  models : Directory Model
  enums : Directory Enum
  deriving Repr

namespace Lookup

/-- The index of a schema. -/
def ofSchema (schema : Schema) : Lookup :=
  { models := .ofList (·.name.name) schema.models
    enums := .ofList (·.name.name) schema.enums }

/-- The model with the name given. -/
def model? (lookup : Lookup) (name : String) : Option Model := lookup.models.get? name

/-- Whether an enum with the name given is declared. -/
def isEnum (lookup : Lookup) (name : String) : Bool := (lookup.enums.get? name).isSome

/-- The kind of a field once enums are known: a type name that is declared as an enum is one,
although it looks like a model.
-/
def kind (lookup : Lookup) (field : Field) : FieldKind :=
  match field.type with
  | .object name => if lookup.isEnum name then .enum else .object
  | type => type.kind

/-- Whether a field becomes a column: plain values and enum values do. -/
def isColumn (lookup : Lookup) (field : Field) : Bool :=
  match lookup.kind field with
  | .scalar | .enum => true
  | .object | .unsupported => false

end Lookup

end SchemaDoc
