import SchemaDoc.Proofs.Schema.AttributeEdits
import SchemaDoc.Proofs.Schema.Spans
import SchemaDoc.Schema.Construction

/-! Attributes that a document does not depend on.
Those of names that are not looked at may be removed, and so may those that repeat a name of which
only the first is looked at; and attributes of different names may change places.
-/

namespace SchemaDoc

-----------------------------------------------------------------------------------------
-- Schemas that differ in their attributes
-----------------------------------------------------------------------------------------

/-- What may be different about the attributes of declarations. -/
abbrev AttributeRelation := Holder → List Attribute → List Attribute → Prop

/-- Fields that differ in their attributes only. -/
structure Field.DifferIn (related : AttributeRelation) (f g : Field) : Prop where
  same : f = { g with attributes := f.attributes }
  attributes : related .field f.attributes g.attributes

/-- Models that differ in their attributes and those of their fields only. -/
structure Model.DifferIn (related : AttributeRelation) (m n : Model) : Prop where
  same : m = { n with fields := m.fields, attributes := m.attributes }
  attributes : related .model m.attributes n.attributes
  fields : List.Forall₂ (Field.DifferIn related) m.fields n.fields

/-- Values of enums that differ in their attributes only. -/
structure EnumValue.DifferIn (related : AttributeRelation) (v w : EnumValue) : Prop where
  same : v = { w with attributes := v.attributes }
  attributes : related .value v.attributes w.attributes

/-- Enums that differ in their attributes and those of their values only. -/
structure Enum.DifferIn (related : AttributeRelation) (e f : Enum) : Prop where
  same : e = { f with values := e.values, attributes := e.attributes }
  attributes : related .enum e.attributes f.attributes
  values : List.Forall₂ (EnumValue.DifferIn related) e.values f.values

/-- Schemas that differ in the attributes of their declarations only. -/
structure Schema.DifferIn (related : AttributeRelation) (s t : Schema) : Prop where
  models : List.Forall₂ (Model.DifferIn related) s.models t.models
  enums : List.Forall₂ (Enum.DifferIn related) s.enums t.enums

/-- A schema with the attributes of all its declarations changed. -/
def Schema.mapAttributes (change : Holder → List Attribute → List Attribute) (schema : Schema)
    : Schema :=
  let onField (field : Field) : Field := { field with attributes := change .field field.attributes }
  let onModel (model : Model) : Model :=
    { model with
      fields := model.fields.map onField
      attributes := change .model model.attributes }
  let onValue (value : EnumValue) : EnumValue :=
    { value with attributes := change .value value.attributes }
  let onEnum (enum : Enum) : Enum :=
    { enum with
      values := enum.values.map onValue
      attributes := change .enum enum.attributes }
  ⟨schema.models.map onModel, schema.enums.map onEnum⟩

/-- Attributes that are found alike: all of the names that are looked at, and at least the first one
of those of which only the first is looked at.
-/
structure Attribute.FoundAlike (holder : Holder) (as bs : List Attribute) : Prop where
  first : ∀ name ∈ holder.names, find? as name = find? bs name
  all : ∀ name ∈ holder.names, name ∉ holder.firstNames → SameAll name as bs

theorem Schema.differIn_mapAttributes {related : AttributeRelation}
    {change : Holder → List Attribute → List Attribute}
    (each : ∀ holder attributes, related holder (change holder attributes) attributes)
    (schema : Schema)
    : Schema.DifferIn related (schema.mapAttributes change) schema where
  models := forall₂_self_map fun _ _ =>
    { same := rfl
      attributes := each .model _
      fields := forall₂_self_map fun _ _ => ⟨rfl, each .field _⟩ }
  enums := forall₂_self_map fun _ _ =>
    { same := rfl
      attributes := each .enum _
      values := forall₂_self_map fun _ _ => ⟨rfl, each .value _⟩ }

section

variable {related related' : AttributeRelation}
  (each : ∀ holder as bs, related holder as bs → related' holder as bs)

include each

theorem Field.DifferIn.imp {f g : Field} (differ : Field.DifferIn related f g)
    : Field.DifferIn related' f g :=
  ⟨differ.same, each _ _ _ differ.attributes⟩

theorem Model.DifferIn.imp {m n : Model} (differ : Model.DifferIn related m n)
    : Model.DifferIn related' m n :=
  ⟨differ.same, each _ _ _ differ.attributes, differ.fields.imp fun _ _ differ => differ.imp each⟩

theorem EnumValue.DifferIn.imp {v w : EnumValue} (differ : EnumValue.DifferIn related v w)
    : EnumValue.DifferIn related' v w :=
  ⟨differ.same, each _ _ _ differ.attributes⟩

theorem Enum.DifferIn.imp {e f : Enum} (differ : Enum.DifferIn related e f)
    : Enum.DifferIn related' e f :=
  ⟨differ.same, each _ _ _ differ.attributes, differ.values.imp fun _ _ differ => differ.imp each⟩

theorem Schema.DifferIn.imp {s t : Schema} (differ : Schema.DifferIn related s t)
    : Schema.DifferIn related' s t :=
  ⟨differ.models.imp fun _ _ differ => differ.imp each,
    differ.enums.imp fun _ _ differ => differ.imp each⟩

end

-----------------------------------------------------------------------------------------
-- What is found
-----------------------------------------------------------------------------------------

namespace Attribute.FoundAlike

variable {holder : Holder} {as bs : List Attribute}

theorem of_sameAll (same : ∀ name ∈ holder.names, SameAll name as bs) : FoundAlike holder as bs :=
  ⟨fun name isRead => (same name isRead).find?_eq, fun name isRead _ => same name isRead⟩

theorem of_only (holder : Holder) (attributes : List Attribute)
    : FoundAlike holder (only holder.names attributes) attributes :=
  of_sameAll fun _ isRead => sameAll_only isRead attributes

theorem of_withoutRepeats (holder : Holder) (attributes : List Attribute)
    : FoundAlike holder (withoutRepeats holder.firstNames attributes) attributes :=
  ⟨fun name _ => find?_withoutRepeats _ attributes name,
    fun _ _ mayRepeat => sameAll_withoutRepeats mayRepeat attributes⟩

theorem of_reorders (holder : Holder) (reorders : Reorders as bs) : FoundAlike holder as bs :=
  of_sameAll fun name _ => reorders.sameAll name

theorem occurs_eq (alike : FoundAlike holder as bs) {name : String} (isRead : name ∈ holder.names)
    : occurs as name = occurs bs name := by
  rw [occurs, occurs, ← List.isSome_find?, ← List.isSome_find?]
  exact congrArg Option.isSome (alike.first name isRead)

theorem mappedName?_eq (alike : FoundAlike holder as bs) (isRead : "map" ∈ holder.names)
    : mappedName? as = mappedName? bs := by
  rw [mappedName?, mappedName?, alike.first "map" isRead]

end Attribute.FoundAlike

theorem Field.DifferIn.alike {lookup lookup' : Lookup}
    (sameEnums : ∀ name, lookup.isEnum name = lookup'.isEnum name) {f g : Field}
    (differ : Field.DifferIn Attribute.FoundAlike f g)
    : Field.Alike lookup lookup' f g := by
  obtain ⟨same, alike⟩ := differ
  have relationship : f.relationship? = g.relationship? := by
    rw [relationship?, relationship?, alike.first "relation" (by decide)]
  exact
    { name := by rw [same]
      mappedName := alike.mappedName?_eq (by decide)
      typeName := by rw [same]
      kind := by
        rw [same]
        simp only [Lookup.kind, sameEnums]
      isList := by rw [same]
      isOptional := by rw [same]
      isId := alike.occurs_eq (by decide)
      isUnique := alike.occurs_eq (by decide)
      default := by
        rw [renderedDefault?, renderedDefault?, default?, default?,
          alike.first "default" (by decide)]
      comment := by rw [same]
      keyFields := by rw [keyFields, keyFields, relationship]
      keyReferences := by rw [keyReferences, keyReferences, relationship] }

theorem Model.DifferIn.alike {lookup lookup' : Lookup}
    (sameEnums : ∀ name, lookup.isEnum name = lookup'.isEnum name) {m n : Model}
    (differ : Model.DifferIn Attribute.FoundAlike m n)
    : Model.Alike lookup lookup' m n := by
  obtain ⟨same, alike, fields⟩ := differ
  have named {name : String} (isRead : name ∈ Holder.model.names)
      (mayRepeat : name ∉ Holder.model.firstNames)
      : m.attributesNamed name = n.attributesNamed name :=
    alike.all name isRead mayRepeat
  exact
    { name := by rw [same]
      mappedName := alike.mappedName?_eq (by decide)
      comment := by rw [same]
      fields := fields.imp fun _ _ differ => differ.alike sameEnums
      key := by rw [alike.first "id" (by decide)]
      uniques := by rw [named (by decide) (by decide)]
      indexes := by rw [named (by decide) (by decide)] }

theorem Enum.DifferIn.toEnumType_eq {e f : Enum} (differ : Enum.DifferIn Attribute.FoundAlike e f)
    : e.toEnumType = f.toEnumType := by
  obtain ⟨same, alike, values⟩ := differ
  have externalName : e.externalName = f.externalName := by
    rw [Enum.externalName, Enum.externalName, Enum.mappedName?, alike.mappedName?_eq (by decide),
      same]
    rfl
  have stored : e.values.map EnumValue.storedName = f.values.map EnumValue.storedName :=
    map_eq_of_forall₂ values fun v w differ => by
      rw [EnumValue.storedName, EnumValue.storedName, EnumValue.mappedName?,
        differ.attributes.mappedName?_eq (by decide), differ.same]
      rfl
  rw [toEnumType, toEnumType, externalName, stored]

theorem Schema.DifferIn.alike {s t : Schema} (differ : Schema.DifferIn Attribute.FoundAlike s t)
    : s.Alike t := by
  have sameEnums (name : String)
      : (Lookup.ofSchema s).isEnum name = (Lookup.ofSchema t).isEnum name := by
    have found : Option.Rel (Enum.DifferIn Attribute.FoundAlike) (s.enum? name) (t.enum? name) :=
      rel_find? differ.enums fun _ _ differ => by rw [differ.same]
    rw [Lookup.isEnum_ofSchema, Lookup.isEnum_ofSchema, isEnum, isEnum]
    generalize s.enum? name = enum?, t.enum? name = enum?' at found
    cases found <;> rfl
  exact
    { models := differ.models.imp fun _ _ differ => differ.alike sameEnums
      enums := map_eq_of_forall₂ differ.enums fun _ _ differ => differ.toEnumType_eq }

/-- A document stays the same when all places are erased, when the attributes of names that are not
looked at are removed, when attributes of different names change places, and when of each name
of which only the first attribute is looked at the others are removed.
-/
theorem inert_attributes (heading : Heading) (schema : Schema)
    : let document := Document.ofSchema heading schema
      let onlyRead := schema.mapAttributes fun holder => Attribute.only holder.names
      let withoutRepeats := schema.mapAttributes fun holder =>
        Attribute.withoutRepeats holder.firstNames
      Document.ofSchema heading schema.eraseSpans = document
        ∧ Document.ofSchema heading onlyRead = document
        ∧ (∀ reordered : Schema,
            Schema.DifferIn (fun _ => Attribute.Reorders) schema reordered
            → Document.ofSchema heading reordered = document)
        ∧ Document.ofSchema heading withoutRepeats = document := by
  intro document onlyRead withoutRepeats
  refine ⟨Document.ofSchema_mapSpan _ heading schema, ?_, fun reordered reorders => ?_, ?_⟩
  · have differ := Schema.differIn_mapAttributes Attribute.FoundAlike.of_only schema
    exact differ.alike.document_eq heading
  · have differ := reorders.imp fun holder _ _ => Attribute.FoundAlike.of_reorders holder
    exact (differ.alike.document_eq heading).symm
  · have differ := Schema.differIn_mapAttributes Attribute.FoundAlike.of_withoutRepeats schema
    exact differ.alike.document_eq heading

/-- A mapping can come in front of the two lists of unique fields, which keep their order, and an
attribute that means nothing can come in front of a mapping.
-/
theorem inert_attributes_event
    : let mapping (name : String) : Attribute := .unplaced "map" [.positional (.string name)]
      let unique (names : List String) : Attribute :=
        .unplaced "unique" [.positional (.list names)]
      let native : Attribute := .unplaced "db.VarChar" []
      let code (attributes : List Attribute) : Field :=
        { Field.unplaced "code" (.scalar .string) with attributes }
      let event (attributes : List Attribute) (code : Field) : Model :=
        { Model.unplaced "Event" with
          fields := [code, .unplaced "year" (.scalar .int)]
          attributes }
      let schema : Schema :=
        ⟨[event [unique ["code"], unique ["year"], mapping "events"]
            (code [mapping "event_code", native])], []⟩
      let reordered : Schema :=
        ⟨[event [mapping "events", unique ["code"], unique ["year"]]
            (code [native, mapping "event_code"])], []⟩
      Schema.DifferIn (fun _ => Attribute.Reorders) schema reordered
        ∧ Document.ofSchema default reordered = Document.ofSchema default schema
        ∧ (Document.ofSchema default reordered).tables.map (fun table =>
            (table.name, table.columns.map Column.name, table.constraints.map Constraint.columns))
          = [("events", ["event_code", "year"], [["event_code"], ["year"]])] := by
  intro mapping unique native code event schema reordered
  have onField : Attribute.Reorders [mapping "event_code", native]
      [native, mapping "event_code"] :=
    .swap (by decide) []
  have onModel : Attribute.Reorders [unique ["code"], unique ["year"], mapping "events"]
      [mapping "events", unique ["code"], unique ["year"]] :=
    .trans (.cons _ (.swap (by decide) [])) (.swap (by decide) [unique ["year"]])
  have onYear : Attribute.Reorders [] [] := .nil
  have differ : Schema.DifferIn (fun _ => Attribute.Reorders) schema reordered :=
    ⟨.cons ⟨rfl, onModel, .cons ⟨rfl, onField⟩ (.cons ⟨rfl, onYear⟩ .nil)⟩ .nil, .nil⟩
  obtain ⟨-, -, inert, -⟩ := inert_attributes default schema
  exact ⟨differ, inert reordered differ, by decide⟩

end SchemaDoc
