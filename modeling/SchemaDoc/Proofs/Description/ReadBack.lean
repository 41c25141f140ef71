import SchemaDoc.Proofs.Description.Described

/-! The schema of a description says what the description says.
Flags, names and lists become attributes, and what reads these attributes finds the described
data again, for every field, model and enum in its place.
-/

namespace SchemaDoc

namespace Description

-----------------------------------------------------------------------------------------
-- What a description says
-----------------------------------------------------------------------------------------

/-- A JSON value stands for a default. An object is a call of the function it names. -/
inductive Translates : Json → Value → Prop
  | string {text} : Translates (.string text) (.string text)
  | integer {n} : Translates (.number (.integer n)) (.number (.ofInt n))
  | float {x} : Translates (.number (.float x)) (.number x)
  | boolean {b} : Translates (.bool b) (.boolean b)
  | call {members key function}
    (named : members.find? (·.1 == "name") = some (key, .string function))
    : Translates (.object members) (.call function)

/-- The type that a kind and a type name describe. -/
inductive DescribesType : FieldKind → String → FieldType → Prop
  | scalar {type : ScalarType} : DescribesType .scalar type.name (.scalar type)
  | native {name} (notBuiltIn : ∀ type : ScalarType, type.name ≠ name)
    : DescribesType .scalar name (.native name)
  | object {name} : DescribesType .object name (.object name)
  | enum {name} : DescribesType .enum name (.enum name)
  | unsupported {text} : DescribesType .unsupported text (.unsupported text)

namespace Field

/-- Whether a described field is optional: as it says, or else unless it is required, and not
when it says neither.
-/
inductive SaysOptional (field : Field) : Bool → Prop
  | optional {b} (said : field.isOptional = some b) : field.SaysOptional b
  | required {b} (unsaid : field.isOptional = none) (said : field.isRequired = some b)
    : field.SaysOptional !b
  | neither (unsaid : field.isOptional = none) (unsaid' : field.isRequired = none)
    : field.SaysOptional false

/-- A described field has a default: it does not deny that, and the value given for it stands
for one.
-/
def SaysDefault (field : Field) (value : Value) : Prop :=
  field.hasDefault ≠ some false ∧ ∃ json, field.default = some json ∧ Translates json value

/-- A described field says something about a relation: its name, or a field on either side. -/
def SaysRelation (field : Field) : Prop :=
  field.relationName ≠ none ∨ field.relationFrom.getD [] ≠ [] ∨ field.relationTo.getD [] ≠ []

/-- A field reads back as it is described. -/
structure ReadsBack (field : Field) (f : SchemaDoc.Field) : Prop where
  name : f.name.name = field.name
  type : DescribesType field.kind field.typeName f.type
  isList : f.isList = field.isList
  isOptional : field.SaysOptional f.isOptional
  isId : f.isId = field.isId
  isUnique : f.isUnique = field.isUnique
  mappedName : f.mappedName? = field.mappedName
  default : ∀ value, f.default? = some value ↔ field.SaysDefault value
  relationship
    : ∀ relationship,
        f.relationship? = some relationship
        ↔ field.SaysRelation
          ∧ relationship.name = field.relationName
          ∧ relationship.fields = field.relationFrom.getD []
          ∧ relationship.references = field.relationTo.getD []
  documentation : f.documentation.map Documentation.text = field.documentation

end Field

/-- An attribute reads back as the index that it describes. -/
structure Index.ReadsBack (index : Index) (a : Attribute) : Prop where
  fields : a.fieldNames? = some index.fields
  name : a.named? "name" = index.name.map Value.string
  mappedName : a.named? "map" = index.mappedName.map Value.string

/-- A model reads back as it is described. Its indexes are the normal ones that name it. -/
structure Model.ReadsBack (indexes : List Index) (model : Model) (m : SchemaDoc.Model) : Prop where
  name : m.name.name = model.name
  mappedName : m.mappedName? = model.mappedName
  documentation : m.documentation.map Documentation.text = model.documentation
  fields : List.Forall₂ Field.ReadsBack model.fields m.fields
  primaryKey
    : (Attribute.find? m.attributes "id").map Attribute.fieldNames?
      = model.primaryKey.map fun key => some key.fields
  uniqueFields : (m.attributesNamed "unique").map Attribute.fieldNames? = model.uniqueFields.map some
  indexes
    : List.Forall₂ Index.ReadsBack
        (indexes.filter fun index => index.model = model.name ∧ index.type = "normal")
        (m.attributesNamed "index")

/-- A value of an enum reads back as it is described. -/
structure EnumValue.ReadsBack (value : EnumValue) (v : SchemaDoc.EnumValue) : Prop where
  name : v.name.name = value.name
  mappedName : v.mappedName? = value.mappedName
  documentation : v.documentation.map Documentation.text = value.documentation

/-- An enum reads back as it is described. -/
structure Enum.ReadsBack (enum : Enum) (e : SchemaDoc.Enum) : Prop where
  name : e.name.name = enum.name
  mappedName : e.mappedName? = enum.mappedName
  documentation : e.documentation.map Documentation.text = enum.documentation
  values : List.Forall₂ EnumValue.ReadsBack enum.values e.values

-----------------------------------------------------------------------------------------
-- Fields
-----------------------------------------------------------------------------------------

theorem defaultOf_eq_some_iff {json : Json} {value : Value}
    : defaultOf json = some value ↔ Translates json value := by
  constructor
  · intro found
    unfold defaultOf at found
    split at found
    case h_5 members =>
      split at found
      next key function named =>
        obtain rfl := Option.some.inj found
        exact .call named
      next => exact absurd found (Option.some_ne_none _).symm
    case h_6 | h_7 => exact absurd found (Option.some_ne_none _).symm
    all_goals
      obtain rfl := Option.some.inj found
      constructor
  · intro translates
    cases translates with
    | call named => simp only [defaultOf, named]
    | string | integer | float | boolean => rfl

theorem map_text_documented (text : Option String)
    : (documented text).map Documentation.text = text := by
  cases text <;> rfl

namespace Field

variable (field : Field)

theorem describesType_type : DescribesType field.kind field.typeName field.type := by
  obtain ⟨name, kind, typeName, _⟩ := field
  cases kind with
  | object => exact .object
  | enum => exact .enum
  | unsupported => exact .unsupported
  | scalar =>
      simp only [type]
      cases found : ScalarType.ofName? typeName with
      | some type =>
          have named : type.name = typeName := by simpa using List.find?_some found
          rw [Option.elim_some, ← named]
          exact .scalar
      | none =>
          refine .native fun type named => ?_
          rw [← named, ScalarType.ofName?_name] at found
          exact absurd found (Option.some_ne_none _)

theorem saysOptional_isOptionalField : field.SaysOptional field.isOptionalField := by
  rw [isOptionalField]
  cases said : field.isOptional with
  | some b => exact .optional said
  | none =>
      cases required : field.isRequired with
      | some b => exact .required said required
      | none => exact .neither said required

theorem default?_eq_some_iff {value : Value}
    : field.default? = some value ↔ field.SaysDefault value := by
  rw [SaysDefault, default?]
  split
  next denied => simp [denied]
  next said => simp [said, Option.bind_eq_some_iff, defaultOf_eq_some_iff]

theorem relationArguments_isEmpty_iff
    : field.relationArguments.isEmpty = true ↔ ¬field.SaysRelation := by
  rw [SaysRelation, relationArguments]
  generalize field.relationFrom.getD [] = fields
  generalize field.relationTo.getD [] = references
  cases field.relationName <;> cases fields <;> cases references <;> simp [namedText, namedList]

/-- The arguments of a relation have different names, so each is found under its own. -/
theorem toRelationship_relationArguments
    : (Attribute.unplaced "relation" field.relationArguments).toRelationship
      = ⟨field.relationName, field.relationFrom.getD [], field.relationTo.getD []⟩ := by
  rw [relationArguments]
  generalize field.relationFrom.getD [] = fields
  generalize field.relationTo.getD [] = references
  cases field.relationName <;> cases fields <;> cases references <;>
    simp [namedText, namedList, Attribute.toRelationship, Attribute.named?, Attribute.positional?,
      Attribute.unplaced, Argument.named, Ident.unplaced, Value.list?, Value.string?]

theorem relationship?_toField_eq_some_iff {relationship : Relationship}
    : field.toField.relationship? = some relationship
      ↔ field.SaysRelation
        ∧ relationship.name = field.relationName
        ∧ relationship.fields = field.relationFrom.getD []
        ∧ relationship.references = field.relationTo.getD [] := by
  obtain ⟨name, fields, references⟩ := relationship
  rw [relationship?_toField, toRelationship_relationArguments]
  split
  next silent => simp [(field.relationArguments_isEmpty_iff).mp silent]
  next said =>
    have related : field.SaysRelation := by
      by_contra silent
      exact said (field.relationArguments_isEmpty_iff.mpr silent)
    simp [related, eq_comm]

theorem readsBack_toField : field.ReadsBack field.toField where
  name := rfl
  type := field.describesType_type
  isList := rfl
  isOptional := field.saysOptional_isOptionalField
  isId := field.isId_toField
  isUnique := field.isUnique_toField
  mappedName := field.mappedName?_toField
  default value := by rw [default?_toField, default?_eq_some_iff]
  relationship _ := field.relationship?_toField_eq_some_iff
  documentation := map_text_documented field.documentation

end Field

-----------------------------------------------------------------------------------------
-- Models and enums
-----------------------------------------------------------------------------------------

theorem Index.readsBack_toAttribute (index : Index) : index.ReadsBack index.toAttribute where
  fields := fieldNames?_named_fields ..
  name := by
    rw [toAttribute]
    cases index.name <;> cases index.mappedName <;>
      simp [namedText, Attribute.named?, Attribute.unplaced, Argument.named, Ident.unplaced]
  mappedName := by
    rw [toAttribute]
    cases index.name <;> cases index.mappedName <;>
      simp [namedText, Attribute.named?, Attribute.unplaced, Argument.named, Ident.unplaced]

theorem Model.readsBack_toModel (indexes : List Index) (model : Model)
    : model.ReadsBack indexes (model.toModel indexes) where
  name := rfl
  mappedName := mappedName?_toModel indexes model
  documentation := map_text_documented model.documentation
  fields := forall₂_map_self fun field _ => field.readsBack_toField
  primaryKey := by
    rw [Attribute.find?_eq_head?, toModel, filter_attributes]
    cases model.primaryKey <;> simp [Key.toAttribute, fieldNames?_named_fields]
  uniqueFields := by
    rw [SchemaDoc.Model.attributesNamed, toModel, filter_attributes]
    simp [fieldNames?_named_fields]
  indexes := by
    have normal : model.normalIndexes indexes
        = indexes.filter fun index => index.model = model.name ∧ index.type = "normal" :=
      List.filter_congr fun index _ => by simp [beq_eq_decide]
    rw [attributesNamed_index_toModel, normal]
    exact forall₂_map_self fun index _ => index.readsBack_toAttribute

theorem EnumValue.readsBack_toEnumValue (value : EnumValue)
    : value.ReadsBack value.toEnumValue where
  name := rfl
  mappedName := value.mappedName?_toEnumValue
  documentation := map_text_documented value.documentation

theorem Enum.readsBack_toEnum (enum : Enum) : enum.ReadsBack enum.toEnum where
  name := rfl
  mappedName := enum.mappedName?_toEnum
  documentation := map_text_documented enum.documentation
  values := forall₂_map_self fun value _ => value.readsBack_toEnumValue

/-- The models and enums of a description read back, one by one and in order. -/
theorem toSchema_readsBack (description : Description)
    : List.Forall₂ (Model.ReadsBack description.indexes) description.models
        description.toSchema.models
      ∧ List.Forall₂ Enum.ReadsBack description.enums description.toSchema.enums := by
  constructor
  · exact forall₂_map_self fun model _ => model.readsBack_toModel description.indexes
  · exact forall₂_map_self fun enum _ => enum.readsBack_toEnum

end Description

end SchemaDoc
