import SchemaDoc.Schema.Basic

/-! Schemas put together piece by piece, from declarations that are written nowhere.
Every piece goes behind those of its kind, so the order of additions is the declaration order.
-/

namespace SchemaDoc

/-- Documentation that is written nowhere. -/
def Documentation.unplaced (text : String) : Documentation := ⟨text, .none⟩

namespace Argument

/-- A positional argument that is written nowhere. -/
def positional (value : Value) : Argument := ⟨none, value, .none⟩

/-- A named argument that is written nowhere. -/
def named (name : String) (value : Value) : Argument := ⟨some (.unplaced name), value, .none⟩

end Argument

/-- An attribute that is written nowhere. -/
def Attribute.unplaced (name : String) (arguments : List Argument) : Attribute :=
  ⟨.unplaced name, arguments, .none⟩

/-- A required field without attributes that is written nowhere. -/
def Field.unplaced (name : String) (type : FieldType) : Field :=
  ⟨.unplaced name, type, false, false, [], none, .none⟩

/-- An enum value without attributes that is written nowhere. -/
def EnumValue.unplaced (name : String) : EnumValue := ⟨.unplaced name, [], none, .none⟩

/-- A model without fields that is written nowhere. -/
def Model.unplaced (name : String) : Model := ⟨.unplaced name, [], [], none, .none⟩

/-- An enum without values that is written nowhere. -/
def Enum.unplaced (name : String) : Enum := ⟨.unplaced name, [], [], none, .none⟩

/-- Adds an attribute to a field. -/
def Field.addAttribute (field : Field) (a : Attribute) : Field :=
  { field with attributes := field.attributes ++ [a] }

/-- Adds a field to a model. -/
def Model.addField (model : Model) (field : Field) : Model :=
  { model with fields := model.fields ++ [field] }

/-- Changes the field at a position of a model, if there is one. -/
def Model.modifyField (model : Model) (position : Nat) (change : Field → Field) : Model :=
  { model with fields := model.fields.modify position change }

/-- Adds an attribute to a model as a whole. -/
def Model.addAttribute (model : Model) (a : Attribute) : Model :=
  { model with attributes := model.attributes ++ [a] }

/-- Adds a value to an enum. -/
def Enum.addValue (enum : Enum) (value : EnumValue) : Enum :=
  { enum with values := enum.values ++ [value] }

namespace Schema

/-- Adds a model to a schema. -/
def addModel (schema : Schema) (model : Model) : Schema :=
  { schema with models := schema.models ++ [model] }

/-- Adds an enum to a schema. -/
def addEnum (schema : Schema) (enum : Enum) : Schema :=
  { schema with enums := schema.enums ++ [enum] }

/-- Changes the model at a position, if there is one. -/
def modifyModel (schema : Schema) (position : Nat) (change : Model → Model) : Schema :=
  { schema with models := schema.models.modify position change }

/-- Changes the enum at a position, if there is one. -/
def modifyEnum (schema : Schema) (position : Nat) (change : Enum → Enum) : Schema :=
  { schema with enums := schema.enums.modify position change }

end Schema

end SchemaDoc
