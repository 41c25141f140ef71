import SchemaDoc.Proofs.Schema.Spans

/-! The places of a schema where a name stands.
There are seven kinds of them: the names of models, enums, fields and values, of types and
arguments, and the segments of the names of attributes. A name is looked up and changed by its
place.
-/

namespace SchemaDoc

/-- Where a name stands in an attribute. -/
inductive AttributeSlot where
  | segment (i : Nat)
  | argument (i : Nat)
  deriving DecidableEq, Repr

/-- Where a name stands in a field or in a value of an enum, which has no type. -/
inductive MemberSlot where
  | name
  | type
  | attributes (i : Nat) (slot : AttributeSlot)
  deriving DecidableEq, Repr

/-- Where a name stands in a model or in an enum. -/
inductive BlockSlot where
  | name
  | member (i : Nat) (slot : MemberSlot)
  | attributes (i : Nat) (slot : AttributeSlot)
  deriving DecidableEq, Repr

/-- Where a name stands in a schema. -/
inductive SchemaSlot where
  | model (i : Nat) (slot : BlockSlot)
  | enum (i : Nat) (slot : BlockSlot)
  deriving DecidableEq, Repr

-----------------------------------------------------------------------------------------
-- Attributes
-----------------------------------------------------------------------------------------

namespace Ident

/-- A name with another text in the same place. -/
def rename (text : String) (name : Ident) : Ident := { name with name := text }

/-- The parts of a name between its dots. -/
def segments (name : Ident) : List (List Char) := name.name.toList.splitOn '.'

/-- A name with another text for one of its parts. -/
def renameSegment (i : Nat) (text : String) (name : Ident) : Ident :=
  name.rename (String.ofList (['.'].intercalate (name.segments.set i text.toList)))

end Ident

/-- An argument with another name, if it has one. -/
def Argument.rename (text : String) (argument : Argument) : Argument :=
  { argument with name := argument.name.map (Ident.rename text) }

namespace Attribute

/-- The name in a place of an attribute. -/
def nameAt (a : Attribute) : AttributeSlot → Option String
  | .segment i => a.name.segments[i]?.map String.ofList
  | .argument i => a.arguments[i]?.bind fun argument => argument.name.map Ident.name

/-- An attribute with another name in a place. -/
def rename (a : Attribute) (slot : AttributeSlot) (text : String) : Attribute :=
  match slot with
  | .segment i => { a with name := a.name.renameSegment i text }
  | .argument i => { a with arguments := a.arguments.modify i (Argument.rename text) }

end Attribute

/-- The name in a place of the attributes of a declaration. -/
def attributeNameAt (attributes : List Attribute) (i : Nat) (slot : AttributeSlot)
    : Option String :=
  attributes[i]?.bind (·.nameAt slot)

/-- The attributes of a declaration with another name in a place. -/
def renameAttribute (attributes : List Attribute) (i : Nat) (slot : AttributeSlot) (text : String)
    : List Attribute :=
  attributes.modify i (·.rename slot text)

-----------------------------------------------------------------------------------------
-- Members of blocks
-----------------------------------------------------------------------------------------

/-- The name that a type is written as, unless the schema language cannot express it. -/
def FieldType.writtenName? : FieldType → Option String
  | .unsupported _ => none
  | type => some type.name

namespace Field

/-- The name in a place of a field. -/
def nameAt (field : Field) : MemberSlot → Option String
  | .name => some field.name.name
  | .type => field.type.writtenName?
  | .attributes i slot => attributeNameAt field.attributes i slot

/-- A field with another name in a place. -/
def rename (field : Field) (slot : MemberSlot) (text : String) : Field :=
  match slot with
  | .name => { field with name := field.name.rename text }
  | .type => { field with type := .ofName text }
  | .attributes i slot =>
      { field with attributes := renameAttribute field.attributes i slot text }

end Field

namespace EnumValue

/-- The name in a place of a value. -/
def nameAt (value : EnumValue) : MemberSlot → Option String
  | .name => some value.name.name
  | .type => none
  | .attributes i slot => attributeNameAt value.attributes i slot

/-- A value with another name in a place. -/
def rename (value : EnumValue) (slot : MemberSlot) (text : String) : EnumValue :=
  match slot with
  | .name => { value with name := value.name.rename text }
  | .type => value
  | .attributes i slot =>
      { value with attributes := renameAttribute value.attributes i slot text }

end EnumValue

-----------------------------------------------------------------------------------------
-- Declarations
-----------------------------------------------------------------------------------------

namespace Model

/-- The name in a place of a model. -/
def nameAt (model : Model) : BlockSlot → Option String
  | .name => some model.name.name
  | .member i slot => model.fields[i]?.bind (·.nameAt slot)
  | .attributes i slot => attributeNameAt model.attributes i slot

/-- A model with another name in a place. -/
def rename (model : Model) (slot : BlockSlot) (text : String) : Model :=
  match slot with
  | .name => { model with name := model.name.rename text }
  | .member i slot => { model with fields := model.fields.modify i (·.rename slot text) }
  | .attributes i slot =>
      { model with attributes := renameAttribute model.attributes i slot text }

end Model

namespace Enum

/-- The name in a place of an enum. -/
def nameAt (enum : Enum) : BlockSlot → Option String
  | .name => some enum.name.name
  | .member i slot => enum.values[i]?.bind (·.nameAt slot)
  | .attributes i slot => attributeNameAt enum.attributes i slot

/-- An enum with another name in a place. -/
def rename (enum : Enum) (slot : BlockSlot) (text : String) : Enum :=
  match slot with
  | .name => { enum with name := enum.name.rename text }
  | .member i slot => { enum with values := enum.values.modify i (·.rename slot text) }
  | .attributes i slot =>
      { enum with attributes := renameAttribute enum.attributes i slot text }

end Enum

namespace Schema

/-- The name in a place of a schema. -/
def nameAt (schema : Schema) : SchemaSlot → Option String
  | .model i slot => schema.models[i]?.bind (·.nameAt slot)
  | .enum i slot => schema.enums[i]?.bind (·.nameAt slot)

/-- A schema with another name in a place. -/
def rename (schema : Schema) (slot : SchemaSlot) (text : String) : Schema :=
  match slot with
  | .model i slot => { schema with models := schema.models.modify i (·.rename slot text) }
  | .enum i slot => { schema with enums := schema.enums.modify i (·.rename slot text) }

end Schema

-----------------------------------------------------------------------------------------
-- Changed names are found again
-----------------------------------------------------------------------------------------

/-- An item that is changed is found changed, if it is there at all. -/
theorem getElem?_modify_bind {α : Type} {xs : List α} {i : Nat} {change : α → α}
    {get : α → Option String} {text : String}
    (changes : ∀ x, (get x).isSome = true → get (change x) = some text)
    (found : (xs[i]?.bind get).isSome = true)
    : (xs.modify i change)[i]?.bind get = some text := by
  rw [List.getElem?_modify_eq]
  cases isItem : xs[i]? with
  | none => simp [isItem] at found
  | some x =>
      rw [isItem, Option.bind_some] at found
      exact changes x found

theorem FieldType.writtenName?_ofName (text : String) : (ofName text).writtenName? = some text := by
  rw [ofName]
  cases found : ScalarType.ofName? text with
  | none => rfl
  | some type =>
      have isNamed : type.name = text := by simpa using List.find?_some found
      exact congrArg some isNamed

section Rename

variable {text : String} (noDot : '.' ∉ text.toList)

include noDot

theorem Ident.segments_renameSegment (name : Ident) (i : Nat)
    : (name.renameSegment i text).segments = name.segments.set i text.toList := by
  have noDots : ∀ part ∈ name.segments.set i text.toList, '.' ∉ part := fun part isPart => by
    rcases List.mem_or_eq_of_mem_set isPart with isOther | rfl
    · exact not_mem_of_mem_splitOn isOther
    · exact noDot
  have notNil : name.segments.set i text.toList ≠ [] := by
    simp [List.set_eq_nil_iff, segments]
  rw [renameSegment, rename, segments, String.toList_ofList]
  exact List.splitOn_intercalate '.' noDots notNil

theorem Attribute.nameAt_rename (a : Attribute) (slot : AttributeSlot)
    (found : (a.nameAt slot).isSome = true)
    : (a.rename slot text).nameAt slot = some text := by
  cases slot with
  | segment i =>
      have isInside : i < a.name.segments.length := by simpa [nameAt] using found
      simp only [nameAt, rename, Ident.segments_renameSegment noDot]
      rw [List.getElem?_set_self isInside, Option.map_some, String.ofList_toList]
  | argument i =>
      refine getElem?_modify_bind (fun argument isNamed => ?_) found
      cases named : argument.name with
      | none => simp [named] at isNamed
      | some name => simp [Argument.rename, named, Ident.rename]

theorem attributeNameAt_renameAttribute {attributes : List Attribute} {i : Nat}
    {slot : AttributeSlot} (found : (attributeNameAt attributes i slot).isSome = true)
    : attributeNameAt (renameAttribute attributes i slot text) i slot = some text :=
  getElem?_modify_bind (fun a => a.nameAt_rename noDot slot) found

theorem Field.nameAt_rename (field : Field) (slot : MemberSlot)
    (found : (field.nameAt slot).isSome = true)
    : (field.rename slot text).nameAt slot = some text := by
  cases slot with
  | name => rfl
  | type => exact FieldType.writtenName?_ofName text
  | attributes i slot => exact attributeNameAt_renameAttribute noDot found

theorem EnumValue.nameAt_rename (value : EnumValue) (slot : MemberSlot)
    (found : (value.nameAt slot).isSome = true)
    : (value.rename slot text).nameAt slot = some text := by
  cases slot with
  | name => rfl
  | type => simp [nameAt] at found
  | attributes i slot => exact attributeNameAt_renameAttribute noDot found

theorem Model.nameAt_rename (model : Model) (slot : BlockSlot)
    (found : (model.nameAt slot).isSome = true)
    : (model.rename slot text).nameAt slot = some text := by
  cases slot with
  | name => rfl
  | member i slot => exact getElem?_modify_bind (fun field => field.nameAt_rename noDot slot) found
  | attributes i slot => exact attributeNameAt_renameAttribute noDot found

theorem Enum.nameAt_rename (enum : Enum) (slot : BlockSlot)
    (found : (enum.nameAt slot).isSome = true)
    : (enum.rename slot text).nameAt slot = some text := by
  cases slot with
  | name => rfl
  | member i slot => exact getElem?_modify_bind (fun value => value.nameAt_rename noDot slot) found
  | attributes i slot => exact attributeNameAt_renameAttribute noDot found

theorem Schema.nameAt_rename (schema : Schema) (slot : SchemaSlot)
    (found : (schema.nameAt slot).isSome = true)
    : (schema.rename slot text).nameAt slot = some text := by
  cases slot with
  | model i slot => exact getElem?_modify_bind (fun model => model.nameAt_rename noDot slot) found
  | enum i slot => exact getElem?_modify_bind (fun enum => enum.nameAt_rename noDot slot) found

end Rename

-----------------------------------------------------------------------------------------
-- Names do not depend on places in a text
-----------------------------------------------------------------------------------------

section MapSpan

variable (change : Span → Span)

/-- What is found in an item does not change if nothing of it is told by the change of items. -/
theorem getElem?_map_bind {α : Type} {f : α → α} {get : α → Option String}
    (same : ∀ x, get (f x) = get x) (xs : List α) (i : Nat)
    : (xs.map f)[i]?.bind get = xs[i]?.bind get := by
  rw [List.getElem?_map, Option.bind_map]
  exact congrArg (xs[i]?.bind ·) (funext same)

theorem Attribute.nameAt_mapSpan (a : Attribute) (slot : AttributeSlot)
    : (a.mapSpan change).nameAt slot = a.nameAt slot := by
  cases slot with
  | segment i => rfl
  | argument i =>
      refine getElem?_map_bind (fun argument => ?_) _ _
      cases named : argument.name <;> simp [Argument.mapSpan, named, Ident.mapSpan]

theorem attributeNameAt_map_mapSpan (attributes : List Attribute) (i : Nat) (slot : AttributeSlot)
    : attributeNameAt (attributes.map (Attribute.mapSpan change)) i slot
      = attributeNameAt attributes i slot :=
  getElem?_map_bind (fun a => a.nameAt_mapSpan change slot) _ _

theorem Field.nameAt_mapSpan (field : Field) (slot : MemberSlot)
    : (field.mapSpan change).nameAt slot = field.nameAt slot := by
  cases slot with
  | name | type => rfl
  | attributes i slot => exact attributeNameAt_map_mapSpan change _ _ _

theorem EnumValue.nameAt_mapSpan (value : EnumValue) (slot : MemberSlot)
    : (value.mapSpan change).nameAt slot = value.nameAt slot := by
  cases slot with
  | name | type => rfl
  | attributes i slot => exact attributeNameAt_map_mapSpan change _ _ _

theorem Model.nameAt_mapSpan (model : Model) (slot : BlockSlot)
    : (model.mapSpan change).nameAt slot = model.nameAt slot := by
  cases slot with
  | name => rfl
  | member i slot => exact getElem?_map_bind (fun field => field.nameAt_mapSpan change slot) _ _
  | attributes i slot => exact attributeNameAt_map_mapSpan change _ _ _

theorem Enum.nameAt_mapSpan (enum : Enum) (slot : BlockSlot)
    : (enum.mapSpan change).nameAt slot = enum.nameAt slot := by
  cases slot with
  | name => rfl
  | member i slot => exact getElem?_map_bind (fun value => value.nameAt_mapSpan change slot) _ _
  | attributes i slot => exact attributeNameAt_map_mapSpan change _ _ _

theorem Schema.nameAt_mapSpan (schema : Schema) (slot : SchemaSlot)
    : (schema.mapSpan change).nameAt slot = schema.nameAt slot := by
  cases slot with
  | model i slot => exact getElem?_map_bind (fun model => model.nameAt_mapSpan change slot) _ _
  | enum i slot => exact getElem?_map_bind (fun enum => enum.nameAt_mapSpan change slot) _ _

end MapSpan

/-- Schemas that are the same but for their places have the same names. -/
theorem Schema.nameAt_eq_of_eraseSpans {schema schema' : Schema}
    (same : schema.eraseSpans = schema'.eraseSpans) (slot : SchemaSlot)
    : schema.nameAt slot = schema'.nameAt slot := by
  have erased := congrArg (nameAt · slot) same
  simpa only [eraseSpans, nameAt_mapSpan] using erased

end SchemaDoc
