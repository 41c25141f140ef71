import SchemaDoc.Proofs.Document.Alike

/-! Schemas whose places in a text are changed, all of them in one way.
A document shows no places, so it stays the same.
-/

namespace SchemaDoc

-----------------------------------------------------------------------------------------
-- Changing places
-----------------------------------------------------------------------------------------

/-- A range that is moved towards the end of a text. -/
def Span.shift (offset : Nat) (span : Span) : Span :=
  ⟨span.start + offset, span.stop + offset⟩

/-- A name with its place changed. -/
def Ident.mapSpan (change : Span → Span) (ident : Ident) : Ident :=
  ⟨ident.name, change ident.span⟩

/-- An argument with its places changed. -/
def Argument.mapSpan (change : Span → Span) (argument : Argument) : Argument :=
  ⟨argument.name.map (Ident.mapSpan change), argument.value, change argument.span⟩

/-- An attribute with its places changed. -/
def Attribute.mapSpan (change : Span → Span) (a : Attribute) : Attribute :=
  ⟨a.name.mapSpan change, a.arguments.map (Argument.mapSpan change), change a.span⟩

/-- Documentation with its place changed. -/
def Documentation.mapSpan (change : Span → Span) (documentation : Documentation)
    : Documentation :=
  ⟨documentation.text, change documentation.span⟩

/-- A field with its places changed. -/
def Field.mapSpan (change : Span → Span) (field : Field) : Field :=
  { name := field.name.mapSpan change
    type := field.type
    isList := field.isList
    isOptional := field.isOptional
    attributes := field.attributes.map (Attribute.mapSpan change)
    documentation := field.documentation.map (Documentation.mapSpan change)
    span := change field.span }

/-- A model with its places changed. -/
def Model.mapSpan (change : Span → Span) (model : Model) : Model :=
  { name := model.name.mapSpan change
    fields := model.fields.map (Field.mapSpan change)
    attributes := model.attributes.map (Attribute.mapSpan change)
    documentation := model.documentation.map (Documentation.mapSpan change)
    span := change model.span }

/-- A value of an enum with its places changed. -/
def EnumValue.mapSpan (change : Span → Span) (value : EnumValue) : EnumValue :=
  { name := value.name.mapSpan change
    attributes := value.attributes.map (Attribute.mapSpan change)
    documentation := value.documentation.map (Documentation.mapSpan change)
    span := change value.span }

/-- An enum with its places changed. -/
def Enum.mapSpan (change : Span → Span) (enum : Enum) : Enum :=
  { name := enum.name.mapSpan change
    values := enum.values.map (EnumValue.mapSpan change)
    attributes := enum.attributes.map (Attribute.mapSpan change)
    documentation := enum.documentation.map (Documentation.mapSpan change)
    span := change enum.span }

namespace Schema

/-- A schema with its places changed. -/
def mapSpan (change : Span → Span) (schema : Schema) : Schema :=
  ⟨schema.models.map (Model.mapSpan change), schema.enums.map (Enum.mapSpan change)⟩

/-- A schema that is written nowhere. -/
def eraseSpans (schema : Schema) : Schema := schema.mapSpan fun _ => .none

/-- A schema that is moved towards the end of a text. -/
def shift (offset : Nat) (schema : Schema) : Schema := schema.mapSpan (Span.shift offset)

end Schema

-----------------------------------------------------------------------------------------
-- Places that stay
-----------------------------------------------------------------------------------------

theorem Argument.mapSpan_id : mapSpan id = id := by
  funext argument
  have names : argument.name.map (Ident.mapSpan id) = argument.name := Option.map_id' ..
  rw [mapSpan, names]
  rfl

theorem Attribute.mapSpan_id : mapSpan id = id := by
  funext a
  rw [mapSpan, Argument.mapSpan_id, List.map_id]
  rfl

theorem Documentation.mapSpan_id : mapSpan id = id := rfl

theorem Field.mapSpan_id : mapSpan id = id := by
  funext field
  rw [mapSpan, Attribute.mapSpan_id, List.map_id, Documentation.mapSpan_id, Option.map_id]
  rfl

theorem Model.mapSpan_id : mapSpan id = id := by
  funext model
  rw [mapSpan, Field.mapSpan_id, List.map_id, Attribute.mapSpan_id, List.map_id,
    Documentation.mapSpan_id, Option.map_id]
  rfl

theorem EnumValue.mapSpan_id : mapSpan id = id := by
  funext value
  rw [mapSpan, Attribute.mapSpan_id, List.map_id, Documentation.mapSpan_id, Option.map_id]
  rfl

theorem Enum.mapSpan_id : mapSpan id = id := by
  funext enum
  rw [mapSpan, EnumValue.mapSpan_id, List.map_id, Attribute.mapSpan_id, List.map_id,
    Documentation.mapSpan_id, Option.map_id]
  rfl

theorem Schema.mapSpan_id (schema : Schema) : schema.mapSpan id = schema := by
  rw [mapSpan, Model.mapSpan_id, List.map_id, Enum.mapSpan_id, List.map_id]

-----------------------------------------------------------------------------------------
-- Attributes
-----------------------------------------------------------------------------------------

namespace Attribute

variable (change : Span → Span) (a : Attribute) (attributes : List Attribute) (name : String)

theorem isNamed_mapSpan : (a.mapSpan change).isNamed name = a.isNamed name := rfl

theorem firstValue?_mapSpan : (a.mapSpan change).firstValue? = a.firstValue? := by
  simp [firstValue?, mapSpan, Argument.mapSpan, Function.comp_def]

theorem positional?_mapSpan : (a.mapSpan change).positional? = a.positional? := by
  simp [positional?, mapSpan, Argument.mapSpan, List.find?_map, Function.comp_def]

theorem named?_mapSpan : (a.mapSpan change).named? name = a.named? name := by
  simp [named?, mapSpan, Argument.mapSpan, Ident.mapSpan, List.find?_map, Function.comp_def]

theorem find?_mapSpan
    : find? (attributes.map (mapSpan change)) name
      = (find? attributes name).map (mapSpan change) := by
  simp [find?, List.find?_map, Function.comp_def, isNamed_mapSpan]

theorem occurs_mapSpan
    : occurs (attributes.map (mapSpan change)) name = occurs attributes name := by
  simp [occurs, Function.comp_def, isNamed_mapSpan]

theorem fieldNames?_mapSpan : (a.mapSpan change).fieldNames? = a.fieldNames? := by
  rw [fieldNames?, fieldNames?, named?_mapSpan, positional?_mapSpan]

theorem indexName?_mapSpan : (a.mapSpan change).indexName? = a.indexName? := by
  rw [indexName?, indexName?, named?_mapSpan, named?_mapSpan]

theorem mappedName?_mapSpan
    : mappedName? (attributes.map (mapSpan change)) = mappedName? attributes := by
  have same : text? ∘ mapSpan change = text? := by
    funext a
    rw [Function.comp_apply, text?, text?, firstValue?_mapSpan]
  rw [mappedName?, mappedName?, find?_mapSpan, Option.bind_map, same]

theorem toRelationship_mapSpan : (a.mapSpan change).toRelationship = a.toRelationship := by
  simp only [toRelationship, named?_mapSpan, positional?_mapSpan]

end Attribute

-----------------------------------------------------------------------------------------
-- The document
-----------------------------------------------------------------------------------------

open Attribute

variable (change : Span → Span)

theorem Field.mapSpan_alike {lookup lookup' : Lookup}
    (sameEnums : ∀ name, lookup.isEnum name = lookup'.isEnum name) (field : Field)
    : Field.Alike lookup lookup' (field.mapSpan change) field where
  name := rfl
  mappedName := mappedName?_mapSpan change field.attributes
  typeName := rfl
  kind := by
    simp only [Lookup.kind, mapSpan, sameEnums]
  isList := rfl
  isOptional := rfl
  isId := occurs_mapSpan change field.attributes "id"
  isUnique := occurs_mapSpan change field.attributes "unique"
  default := by
    have same : Attribute.firstValue? ∘ Attribute.mapSpan change = Attribute.firstValue? :=
      funext (firstValue?_mapSpan change)
    simp only [renderedDefault?, default?, mapSpan, find?_mapSpan, Option.bind_map, same]
  comment := by
    cases isDocumented : field.documentation <;>
      simp [mapSpan, Documentation.comment, Documentation.mapSpan, isDocumented]
  keyFields := by
    simp [keyFields, relationship?, mapSpan, find?_mapSpan, toRelationship_mapSpan,
      Function.comp_def]
  keyReferences := by
    simp [keyReferences, relationship?, mapSpan, find?_mapSpan, toRelationship_mapSpan,
      Function.comp_def]

theorem Model.mapSpan_alike {lookup lookup' : Lookup}
    (sameEnums : ∀ name, lookup.isEnum name = lookup'.isEnum name) (model : Model)
    : Model.Alike lookup lookup' (model.mapSpan change) model where
  name := rfl
  mappedName := mappedName?_mapSpan change model.attributes
  comment := by
    cases isDocumented : model.documentation <;>
      simp [mapSpan, Documentation.comment, Documentation.mapSpan, isDocumented]
  fields := forall₂_self_map fun field _ => field.mapSpan_alike change sameEnums
  key := by
    have same : Attribute.fieldNames? ∘ Attribute.mapSpan change = Attribute.fieldNames? :=
      funext (fieldNames?_mapSpan change)
    simp only [mapSpan, find?_mapSpan, Option.bind_map, same]
  uniques := by
    simp [attributesNamed, mapSpan, List.filter_map, List.filterMap_map, fieldNames?_mapSpan,
      isNamed_mapSpan, Function.comp_def]
  indexes := by
    simp [attributesNamed, mapSpan, List.filter_map, fieldNames?_mapSpan, indexName?_mapSpan,
      isNamed_mapSpan, Function.comp_def]

theorem Enum.toEnumType_mapSpan (enum : Enum)
    : (enum.mapSpan change).toEnumType = enum.toEnumType := by
  have storedName (value : EnumValue) : (value.mapSpan change).storedName = value.storedName := by
    simp only [EnumValue.storedName, EnumValue.mappedName?, EnumValue.mapSpan, mappedName?_mapSpan]
    rfl
  have externalName : (enum.mapSpan change).externalName = enum.externalName := by
    simp only [Enum.externalName, Enum.mappedName?, mapSpan, mappedName?_mapSpan]
    rfl
  rw [toEnumType, externalName]
  simp [mapSpan, storedName, toEnumType, Function.comp_def]

theorem Schema.isEnum_mapSpan (schema : Schema) (name : String)
    : (schema.mapSpan change).isEnum name = schema.isEnum name := by
  simp [isEnum, enum?, mapSpan, List.find?_map, Enum.mapSpan, Ident.mapSpan, Function.comp_def]

/-- The places of declarations do not show in the document. -/
theorem Document.ofSchema_mapSpan (heading : Heading) (schema : Schema)
    : Document.ofSchema heading (schema.mapSpan change) = Document.ofSchema heading schema := by
  have sameEnums (name : String)
      : (Lookup.ofSchema (schema.mapSpan change)).isEnum name
        = (Lookup.ofSchema schema).isEnum name := by
    rw [Lookup.isEnum_ofSchema, Lookup.isEnum_ofSchema, schema.isEnum_mapSpan]
  have alike : Schema.Alike (schema.mapSpan change) schema :=
    { models := forall₂_self_map fun model _ => model.mapSpan_alike change sameEnums
      enums := by
        simp [Schema.mapSpan, Enum.toEnumType_mapSpan, Function.comp_def] }
  exact alike.document_eq heading

/-- Schemas that differ in their places only have the same document. -/
theorem Document.ofSchema_eq_of_eraseSpans {s t : Schema} (same : s.eraseSpans = t.eraseSpans)
    (heading : Heading)
    : Document.ofSchema heading s = Document.ofSchema heading t := by
  rw [← Document.ofSchema_mapSpan (fun _ => .none) heading s,
    ← Document.ofSchema_mapSpan (fun _ => .none) heading t]
  exact congrArg _ same

end SchemaDoc
