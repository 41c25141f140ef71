import SchemaDoc.Proofs.Description.Described
import SchemaDoc.Schema.Reader

/-! A description and a schema that declare the same data model have the same document.
The two forms differ in how they say it: a schema names an enum where a description flags one,
writes a default as a bare name, and lists fields by position or under any relation name.
-/

namespace SchemaDoc

namespace Description

-----------------------------------------------------------------------------------------
-- Agreement of declarations
-----------------------------------------------------------------------------------------

/-- The default that a described field has, unless it says that it has none. -/
def Field.effectiveDefault? (field : Field) : Option Json :=
  if field.hasDefault = some false then none else field.default

/-- A described kind with its type name, against a type of a schema that declares the enums
given. In a schema, an enum and a model look the same.
-/
inductive TypeAgrees (isEnum : String → Bool) : FieldKind → String → FieldType → Prop
  | scalar {type : ScalarType} : TypeAgrees isEnum .scalar type.name (.scalar type)
  | enum {name} (declared : isEnum name = true)
    : TypeAgrees isEnum .enum name (.object name)
  | object {name} (undeclared : isEnum name = false)
    : TypeAgrees isEnum .object name (.object name)
  | unsupported {text} : TypeAgrees isEnum .unsupported text (.unsupported text)

/-- A described default against a default of a schema. A text stands for a string as well as
for a bare name. Null, a list and an object that names no function are no defaults, and a list
is none in a schema either.
-/
inductive DefaultAgrees : Option Json → Option Value → Prop
  | string {text} : DefaultAgrees (some (.string text)) (some (.string text))
  | name {text} : DefaultAgrees (some (.string text)) (some (.name text))
  | call {members key function}
    (named : members.find? (·.1 == "name") = some (key, .string function))
    : DefaultAgrees (some (.object members)) (some (.call function))
  | integer {n} : DefaultAgrees (some (.number (.integer n))) (some (.number (.ofInt n)))
  | float {x} : DefaultAgrees (some (.number (.float x))) (some (.number x))
  | boolean {b} : DefaultAgrees (some (.bool b)) (some (.boolean b))
  | list {items names} : DefaultAgrees (some (.array items)) (some (.list names))
  | array {items} : DefaultAgrees (some (.array items)) none
  | object {members}
    (unnamed : ∀ key function,
      members.find? (·.1 == "name") ≠ some (key, .string function))
    : DefaultAgrees (some (.object members)) none
  | null : DefaultAgrees (some .null) none
  | absent : DefaultAgrees none none

/-- A described field against a field of a schema that declares the enums given. -/
structure Field.Agrees (isEnum : String → Bool) (field : Field) (f : SchemaDoc.Field)
  : Prop where
  name : field.name = f.name.name
  type : TypeAgrees isEnum field.kind field.typeName f.type
  isList : field.isList = f.isList
  isOptional : field.isOptionalField = f.isOptional
  isId : field.isId = f.isId
  isUnique : field.isUnique = f.isUnique
  mappedName : field.mappedName = f.mappedName?
  documentation : field.documentation = f.documentation.map Documentation.text
  default : DefaultAgrees field.effectiveDefault? f.default?
  relationFrom : field.relationFrom.getD [] = f.keyFields
  relationTo : field.relationTo.getD [] = f.keyReferences

/-- A described index against an `@@index` attribute. -/
structure Index.Agrees (index : Index) (a : Attribute) : Prop where
  fields : some index.fields = a.fieldNames?
  name : index.name.or index.mappedName = a.indexName?

/-- A described model against a model of a schema that declares the enums given. -/
structure Model.Agrees (isEnum : String → Bool) (indexes : List Index) (model : Model)
    (m : SchemaDoc.Model)
  : Prop where
  name : model.name = m.name.name
  mappedName : model.mappedName = m.mappedName?
  documentation : model.documentation = m.documentation.map Documentation.text
  fields : List.Forall₂ (Field.Agrees isEnum) model.fields m.fields
  primaryKey
    : model.primaryKey.map Key.fields
      = (Attribute.find? m.attributes "id").bind Attribute.fieldNames?
  uniqueFields
    : model.uniqueFields = (m.attributesNamed "unique").filterMap Attribute.fieldNames?
  indexes
    : List.Forall₂ Index.Agrees (model.normalIndexes indexes) (m.attributesNamed "index")

/-- A described value against a value of an enum. -/
structure EnumValue.Agrees (value : EnumValue) (v : SchemaDoc.EnumValue) : Prop where
  name : value.name = v.name.name
  mappedName : value.mappedName = v.mappedName?

/-- A described enum against an enum of a schema. -/
structure Enum.Agrees (enum : Enum) (e : SchemaDoc.Enum) : Prop where
  name : enum.name = e.name.name
  mappedName : enum.mappedName = e.mappedName?
  values : List.Forall₂ EnumValue.Agrees enum.values e.values

/-- A description and a schema that declare the same data model. -/
structure Agrees (description : Description) (schema : Schema) : Prop where
  models
    : List.Forall₂ (Model.Agrees schema.isEnum description.indexes) description.models
        schema.models
  enums : List.Forall₂ Enum.Agrees description.enums schema.enums

-----------------------------------------------------------------------------------------
-- Pieces that agree are alike
-----------------------------------------------------------------------------------------

theorem DefaultAgrees.render_eq {json : Option Json} {value : Option Value}
    (agrees : DefaultAgrees json value)
    : (json.bind defaultOf).bind Value.render? = value.bind Value.render? := by
  cases agrees with
  | call named => simp only [Option.bind_some, defaultOf, named]
  | @object members unnamed =>
      have noDefault : defaultOf (.object members) = none := by
        rw [defaultOf]
        split
        next found => exact absurd found (unnamed _ _)
        next => rfl
      rw [Option.bind_some, noDefault]
  | _ => rfl

theorem Field.default?_eq_bind (field : Field)
    : field.default? = field.effectiveDefault?.bind defaultOf := by
  rw [default?, effectiveDefault?]
  split <;> rfl

theorem comment_documented (text : Option String)
    : Documentation.comment (documented text) = text.getD "" := by
  cases text <;> rfl

theorem comment_eq_of_map {text : Option String} {documentation : Option Documentation}
    (same : text = documentation.map Documentation.text)
    : Documentation.comment documentation = text.getD "" := by
  subst same
  cases documentation <;> rfl

/-- What looks like a model in a schema is an enum there exactly when it is described as one. -/
theorem TypeAgrees.kind_eq {lookup lookup' : Lookup} {field : Field} {f : SchemaDoc.Field}
    (sameEnums : ∀ name, lookup.isEnum name = lookup'.isEnum name)
    (agrees : TypeAgrees lookup.isEnum field.kind field.typeName f.type)
    : lookup.kind f = lookup'.kind field.toField ∧ f.type.name = field.toField.type.name := by
  have described : field.toField.type = field.type := rfl
  obtain ⟨name, kind, typeName, _⟩ := field
  obtain ⟨ident, type, _⟩ := f
  simp only [Lookup.kind, described, Field.type] at agrees ⊢
  cases agrees with
  | scalar => simp [ScalarType.ofName?_name, FieldType.kind, FieldType.name]
  | enum declared => simp [declared, FieldType.kind, FieldType.name]
  | object undeclared => simp [undeclared, ← sameEnums, FieldType.name]
  | unsupported => simp [FieldType.kind, FieldType.name]

theorem Field.Agrees.alike {lookup lookup' : Lookup} {field : Field} {f : SchemaDoc.Field}
    (sameEnums : ∀ name, lookup.isEnum name = lookup'.isEnum name)
    (agrees : field.Agrees lookup.isEnum f)
    : SchemaDoc.Field.Alike lookup lookup' f field.toField := by
  obtain ⟨kind, typeName⟩ := agrees.type.kind_eq sameEnums
  have default : f.renderedDefault? = field.toField.renderedDefault? := by
    rw [SchemaDoc.Field.renderedDefault?, SchemaDoc.Field.renderedDefault?,
      default?_toField, default?_eq_bind, agrees.default.render_eq]
  have comment : Documentation.comment f.documentation
      = Documentation.comment field.toField.documentation := by
    rw [comment_eq_of_map agrees.documentation, toField, comment_documented]
  exact
    { name := agrees.name.symm
      mappedName := by rw [mappedName?_toField, agrees.mappedName]
      typeName, kind, default, comment
      isList := agrees.isList.symm
      isOptional := agrees.isOptional.symm
      isId := by rw [isId_toField, agrees.isId]
      isUnique := by rw [isUnique_toField, agrees.isUnique]
      keyFields := by rw [field.relationship_toField.1, agrees.relationFrom]
      keyReferences := by rw [field.relationship_toField.2, agrees.relationTo] }

theorem Model.Agrees.alike {lookup lookup' : Lookup} {indexes : List Index} {model : Model}
    {m : SchemaDoc.Model}
    (sameEnums : ∀ name, lookup.isEnum name = lookup'.isEnum name)
    (agrees : model.Agrees lookup.isEnum indexes m)
    : SchemaDoc.Model.Alike lookup lookup' m (model.toModel indexes) := by
  have comment : Documentation.comment m.documentation
      = Documentation.comment (model.toModel indexes).documentation := by
    rw [comment_eq_of_map agrees.documentation, toModel, comment_documented]
  have fields : List.Forall₂ (SchemaDoc.Field.Alike lookup lookup') m.fields
      (model.toModel indexes).fields := by
    refine List.forall₂_map_right_iff.mpr (List.Forall₂.flip ?_)
    exact agrees.fields.imp fun _ _ related => related.alike sameEnums
  have described (index : Index)
      : (index.toAttribute.fieldNames?, index.toAttribute.indexName?)
        = (some index.fields, index.name.or index.mappedName) := by
    rw [index.indexName?_toAttribute, Index.toAttribute, fieldNames?_named_fields]
  have indexes_eq : (m.attributesNamed "index").map (fun a => (a.fieldNames?, a.indexName?))
      = ((model.toModel indexes).attributesNamed "index").map
          fun a => (a.fieldNames?, a.indexName?) := by
    rw [attributesNamed_index_toModel, List.map_map]
    refine (map_eq_of_forall₂ agrees.indexes fun index a related => ?_).symm
    rw [Function.comp_apply, described, related.fields, related.name]
  exact
    { name := agrees.name.symm
      mappedName := by rw [mappedName?_toModel, agrees.mappedName]
      comment, fields
      key := by rw [fieldNames?_id_toModel, agrees.primaryKey]
      uniques := by rw [fieldNames?_unique_toModel, agrees.uniqueFields]
      indexes := indexes_eq }

theorem Enum.Agrees.toEnumType_eq {enum : Enum} {e : SchemaDoc.Enum} (agrees : enum.Agrees e)
    : enum.toEnum.toEnumType = e.toEnumType := by
  have externalName : enum.toEnum.externalName = e.externalName := by
    rw [SchemaDoc.Enum.externalName, SchemaDoc.Enum.externalName, mappedName?_toEnum,
      agrees.mappedName, toEnum, ← agrees.name]
    rfl
  have values : enum.toEnum.values.map SchemaDoc.EnumValue.storedName
      = e.values.map SchemaDoc.EnumValue.storedName := by
    rw [toEnum, List.map_map]
    refine map_eq_of_forall₂ agrees.values fun value v related => ?_
    rw [Function.comp_apply, SchemaDoc.EnumValue.storedName, SchemaDoc.EnumValue.storedName,
      value.mappedName?_toEnumValue, related.mappedName, ← related.name]
    rfl
  rw [SchemaDoc.Enum.toEnumType, SchemaDoc.Enum.toEnumType, externalName, values]

-----------------------------------------------------------------------------------------
-- The two forms of a data model
-----------------------------------------------------------------------------------------

theorem Agrees.isEnum_eq {description : Description} {schema : Schema}
    (agrees : description.Agrees schema) (name : String)
    : (Lookup.ofSchema schema).isEnum name
      = (Lookup.ofSchema description.toSchema).isEnum name := by
  have found : Option.Rel Enum.Agrees
      (description.enums.find? fun enum => enum.toEnum.name.name == name)
      (schema.enum? name) :=
    rel_find? agrees.enums fun _ _ related => congrArg (· == name) related.name
  have described : (description.toSchema.enum? name).isSome
      = (description.enums.find? fun enum => enum.toEnum.name.name == name).isSome := by
    rw [Schema.enum?, toSchema, List.find?_map, Option.isSome_map]
    rfl
  rw [Lookup.isEnum_ofSchema, Lookup.isEnum_ofSchema, Schema.isEnum, Schema.isEnum, described]
  generalize description.enums.find? _ = enum?, schema.enum? name = e? at found ⊢
  cases found <;> rfl

theorem Agrees.alike {description : Description} {schema : Schema}
    (agrees : description.Agrees schema)
    : Schema.Alike schema description.toSchema := by
  have declared : (Lookup.ofSchema schema).isEnum = schema.isEnum :=
    funext (Lookup.isEnum_ofSchema schema)
  constructor
  · refine List.forall₂_map_right_iff.mpr (List.Forall₂.flip ?_)
    refine agrees.models.imp fun model m related => ?_
    rw [← declared] at related
    exact related.alike agrees.isEnum_eq
  · rw [toSchema, List.map_map]
    exact (map_eq_of_forall₂ agrees.enums fun _ _ => Enum.Agrees.toEnumType_eq).symm

/-- The document of a schema is that of every description of the same data model. -/
theorem ofSchema_eq_of_agrees (heading : Heading) {description : Description} {schema : Schema}
    (agrees : description.Agrees schema)
    : Document.ofSchema heading schema = Document.ofSchema heading description.toSchema :=
  agrees.alike.document_eq heading

/-- A described enum default agrees with the bare name that stands for it in a text. -/
theorem ofSchema_eq_of_enum_default
    : let text := "model Post { kind Kind @default(draft) }\nenum Kind { draft }"
      let field : Field :=
        { (default : Field) with
          name := "kind"
          kind := .enum
          typeName := "Kind"
          default := some (.string "draft") }
      let description : Description :=
        ⟨[⟨"Post", none, [field], none, [], none⟩], [⟨"Kind", [⟨"draft", none, none⟩], none, none⟩],
          []⟩
      ∃ schema,
        Schema.ofText false text = .ok schema
        ∧ description.Agrees schema
        ∧ Document.ofSchema default schema = Document.ofSchema default description.toSchema := by
  intro text field description
  let kind : SchemaDoc.Field :=
    { name := ⟨"kind", ⟨13, 17⟩⟩
      type := .object "Kind"
      isList := false
      isOptional := false
      attributes :=
        [⟨⟨"default", ⟨24, 31⟩⟩, [⟨none, .name "draft", ⟨32, 37⟩⟩], ⟨24, 38⟩⟩]
      documentation := none
      span := ⟨13, 38⟩ }
  let post : SchemaDoc.Model := ⟨⟨"Post", ⟨6, 10⟩⟩, [kind], [], none, ⟨0, 40⟩⟩
  let draft : SchemaDoc.EnumValue := ⟨⟨"draft", ⟨53, 58⟩⟩, [], none, ⟨53, 58⟩⟩
  let schema : Schema := ⟨[post], [⟨⟨"Kind", ⟨46, 50⟩⟩, [draft], [], none, ⟨41, 60⟩⟩]⟩
  have fieldAgrees : field.Agrees schema.isEnum kind :=
    ⟨rfl, .enum rfl, rfl, rfl, rfl, rfl, rfl, rfl, .name, rfl, rfl⟩
  have modelAgrees
      : Model.Agrees schema.isEnum [] ⟨"Post", none, [field], none, [], none⟩ post :=
    ⟨rfl, rfl, rfl, .cons fieldAgrees .nil, rfl, rfl, .nil⟩
  have valueAgrees : EnumValue.Agrees ⟨"draft", none, none⟩ draft := ⟨rfl, rfl⟩
  have agrees : description.Agrees schema :=
    ⟨.cons modelAgrees .nil, .cons ⟨rfl, rfl, .cons valueAgrees .nil⟩ .nil⟩
  exact ⟨schema, by decide +kernel, agrees, ofSchema_eq_of_agrees default agrees⟩

end Description

end SchemaDoc
