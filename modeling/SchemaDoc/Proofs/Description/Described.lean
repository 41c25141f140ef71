import SchemaDoc.Description.Schema
import SchemaDoc.Proofs.Document.Alike

/-! What the attributes of a described declaration say is what the description says.
The attributes come in groups of one name each, so those of a name are one of the groups.
-/

namespace SchemaDoc

namespace Attribute

theorem find?_eq_head? (attributes : List Attribute) (name : String)
    : find? attributes name = (attributes.filter (·.isNamed name)).head? :=
  List.head?_filter.symm

theorem occurs_eq_not_isEmpty (attributes : List Attribute) (name : String)
    : occurs attributes name = !(attributes.filter (·.isNamed name)).isEmpty := by
  induction attributes with
  | nil => rfl
  | cons a rest ih =>
      simp only [occurs] at ih ⊢
      rw [List.any_cons, ih, List.filter_cons]
      cases a.isNamed name <;> rfl

/-- In a group of attributes of one name, all or none have the name given. -/
theorem filter_isNamed_of_group {group : List Attribute} (name : String)
    (named : ∀ a ∈ group, a.name.name = name) (other : String)
    : group.filter (·.isNamed other) = if name = other then group else [] := by
  split
  next same =>
    refine List.filter_eq_self.mpr fun a isMember => ?_
    rw [isNamed, named a isMember, same, beq_self_eq_true]
  next differ =>
    refine List.filter_eq_nil_iff.mpr fun a isMember => ?_
    rw [isNamed, named a isMember]
    simpa using differ

end Attribute

namespace Description

theorem mappings_named (mapped : Option String)
    : ∀ a ∈ mappings mapped, a.name.name = "map" := by
  cases mapped with
  | none => simp [mappings]
  | some text => simp [mappings, mapping, Attribute.unplaced, Ident.unplaced]

theorem text?_head?_mappings (mapped : Option String)
    : (mappings mapped).head?.bind Attribute.text? = mapped := by
  cases mapped <;> rfl

-----------------------------------------------------------------------------------------
-- Fields
-----------------------------------------------------------------------------------------

namespace Field

variable (field : Field)

/-- The attributes of a described field that have one name. -/
theorem filter_attributes (name : String)
    : field.attributes.filter (·.isNamed name)
      = (if "id" = name then if field.isId then [.unplaced "id" []] else [] else [])
        ++ (if "unique" = name then if field.isUnique then [.unplaced "unique" []] else []
            else [])
        ++ (if "default" = name then
              (field.default?.map fun value =>
                Attribute.unplaced "default" [.positional value]).toList
            else [])
        ++ (if "relation" = name then
              if field.relationArguments.isEmpty then []
              else [.unplaced "relation" field.relationArguments]
            else [])
        ++ (if "map" = name then mappings field.mappedName else []) := by
  simp only [attributes, List.filter_append]
  congr 1
  · congr 1
    · congr 1
      · congr 1
        · refine Attribute.filter_isNamed_of_group "id" ?_ name
          split <;> simp [Attribute.unplaced, Ident.unplaced]
        · refine Attribute.filter_isNamed_of_group "unique" ?_ name
          split <;> simp [Attribute.unplaced, Ident.unplaced]
      · refine Attribute.filter_isNamed_of_group "default" ?_ name
        cases field.default? <;> simp [Attribute.unplaced, Ident.unplaced]
    · refine Attribute.filter_isNamed_of_group "relation" ?_ name
      split <;> simp [Attribute.unplaced, Ident.unplaced]
  · exact Attribute.filter_isNamed_of_group "map" (mappings_named _) name

@[simp] theorem isId_toField : field.toField.isId = field.isId := by
  rw [SchemaDoc.Field.isId, Attribute.occurs_eq_not_isEmpty, toField, filter_attributes]
  cases field.isId <;> simp

@[simp] theorem isUnique_toField : field.toField.isUnique = field.isUnique := by
  rw [SchemaDoc.Field.isUnique, Attribute.occurs_eq_not_isEmpty, toField, filter_attributes]
  cases field.isUnique <;> simp

@[simp] theorem default?_toField : field.toField.default? = field.default? := by
  rw [SchemaDoc.Field.default?, Attribute.find?_eq_head?, toField, filter_attributes]
  cases field.default? <;> simp [Attribute.firstValue?, Attribute.unplaced, Argument.positional]

@[simp] theorem mappedName?_toField : field.toField.mappedName? = field.mappedName := by
  rw [SchemaDoc.Field.mappedName?, Attribute.mappedName?, Attribute.find?_eq_head?, toField,
    filter_attributes]
  simpa using text?_head?_mappings field.mappedName

theorem relationship?_toField
    : field.toField.relationship?
      = if field.relationArguments.isEmpty then none
        else some (Attribute.unplaced "relation" field.relationArguments).toRelationship := by
  rw [SchemaDoc.Field.relationship?, Attribute.find?_eq_head?, toField, filter_attributes]
  cases found : field.relationArguments.isEmpty <;> simp

/-- A relation without arguments says as little as none at all. -/
theorem relationship_toField
    : field.toField.keyFields = field.relationFrom.getD []
      ∧ field.toField.keyReferences = field.relationTo.getD [] := by
  rw [SchemaDoc.Field.keyFields, SchemaDoc.Field.keyReferences, relationship?_toField,
    relationArguments]
  generalize field.relationFrom.getD [] = fields
  generalize field.relationTo.getD [] = references
  cases field.relationName <;> cases fields <;> cases references <;>
    simp [namedText, namedList, Attribute.toRelationship, Attribute.named?, Attribute.unplaced,
      Argument.named, Ident.unplaced, Value.list?]

end Field

-----------------------------------------------------------------------------------------
-- Models
-----------------------------------------------------------------------------------------

theorem fieldNames?_named_fields (name : String) (names : List String)
    (arguments : List Argument)
    : (Attribute.unplaced name (.named "fields" (.list names) :: arguments)).fieldNames?
      = some names := by
  simp [Attribute.fieldNames?, Attribute.named?, Attribute.unplaced, Argument.named,
    Ident.unplaced, Value.list?]

theorem Index.indexName?_toAttribute (index : Index)
    : index.toAttribute.indexName? = index.name.or index.mappedName := by
  rw [Attribute.indexName?, toAttribute]
  cases index.name <;> cases index.mappedName <;>
    simp [namedText, Attribute.named?, Attribute.unplaced, Argument.named, Ident.unplaced,
      Value.string?]

namespace Model

variable (indexes : List Index) (model : Model)

/-- The indexes of a description that count for a model. -/
def normalIndexes : List Index :=
  indexes.filter fun index => index.model == model.name && index.type == "normal"

/-- The attributes of a described model that have one name. -/
theorem filter_attributes (name : String)
    : (model.attributes indexes).filter (·.isNamed name)
      = (if "map" = name then mappings model.mappedName else [])
        ++ (if "id" = name then (model.primaryKey.map Key.toAttribute).toList else [])
        ++ (if "unique" = name then
              model.uniqueFields.map fun names =>
                Attribute.unplaced "unique" [.named "fields" (.list names)]
            else [])
        ++ (if "index" = name then (model.normalIndexes indexes).map Index.toAttribute
            else []) := by
  simp only [attributes, List.filter_append]
  congr 1
  · congr 1
    · congr 1
      · exact Attribute.filter_isNamed_of_group "map" (mappings_named _) name
      · refine Attribute.filter_isNamed_of_group "id" ?_ name
        cases model.primaryKey <;> simp [Key.toAttribute, Attribute.unplaced, Ident.unplaced]
    · refine Attribute.filter_isNamed_of_group "unique" ?_ name
      simp [Attribute.unplaced, Ident.unplaced]
  · refine Attribute.filter_isNamed_of_group "index" (fun a isMember => ?_) name
    obtain ⟨index, -, rfl⟩ := List.mem_map.mp isMember
    rfl

theorem mappedName?_toModel : (model.toModel indexes).mappedName? = model.mappedName := by
  rw [SchemaDoc.Model.mappedName?, Attribute.mappedName?, Attribute.find?_eq_head?, toModel,
    filter_attributes]
  simpa using text?_head?_mappings model.mappedName

theorem fieldNames?_id_toModel
    : (Attribute.find? (model.toModel indexes).attributes "id").bind Attribute.fieldNames?
      = model.primaryKey.map Key.fields := by
  rw [Attribute.find?_eq_head?, toModel, filter_attributes]
  cases model.primaryKey <;> simp [Key.toAttribute, fieldNames?_named_fields]

theorem fieldNames?_unique_toModel
    : ((model.toModel indexes).attributesNamed "unique").filterMap Attribute.fieldNames?
      = model.uniqueFields := by
  rw [SchemaDoc.Model.attributesNamed, toModel, filter_attributes]
  simp [List.filterMap_map, fieldNames?_named_fields]

theorem attributesNamed_index_toModel
    : (model.toModel indexes).attributesNamed "index"
      = (model.normalIndexes indexes).map Index.toAttribute := by
  rw [SchemaDoc.Model.attributesNamed, toModel, filter_attributes]
  simp

end Model

-----------------------------------------------------------------------------------------
-- Enums
-----------------------------------------------------------------------------------------

theorem EnumValue.mappedName?_toEnumValue (value : EnumValue)
    : value.toEnumValue.mappedName? = value.mappedName := by
  rw [SchemaDoc.EnumValue.mappedName?, Attribute.mappedName?, toEnumValue]
  cases value.mappedName <;> rfl

theorem Enum.mappedName?_toEnum (enum : Enum) : enum.toEnum.mappedName? = enum.mappedName := by
  rw [SchemaDoc.Enum.mappedName?, Attribute.mappedName?, toEnum]
  cases enum.mappedName <;> rfl

end Description

end SchemaDoc
