import SchemaDoc.Command.Check
import SchemaDoc.Proofs.Document.Relations

/-! Which foreign keys a check of a schema warns of, beside those that make a relation.
A key of a field that stands for a model makes exactly one of the two. A field of any other kind
makes no relation, but is warned of all the same where no model has the name of its type.
-/

namespace SchemaDoc

/-- The first `@relation` of a field pairs fields with as many references. -/
structure Field.DescribesKey (field : Field) (fields references : List String) : Prop where
  listed
    : ∃ a,
        IsFirst (·.name.name = "relation") field.attributes a
        ∧ a.Lists "fields" fields
        ∧ a.Lists "references" references
  nonempty : fields ≠ []
  paired : fields.length = references.length

/-- No model of a schema has the name of a type. -/
def Schema.IsUnknown (schema : Schema) (type : FieldType) : Prop :=
  ∀ model ∈ schema.models, model.name.name ≠ type.name

/-- The warning of a field of a model. -/
def Field.warning (model : Model) (field : Field) : UnresolvedRelation :=
  ⟨model.name.name, field.name.name, field.type.name⟩

/-- What a check makes of a run of fields: the relations of the keys that are held, and the
warnings. A warning is due to a key whose field stands for a model that is not declared; it is
undue where the field is of another kind.
-/
inductive Schema.Checks (schema : Schema)
    : List (Model × Field) → List Relation → List UnresolvedRelation → Prop
  | nil : schema.Checks [] [] []
  | relation {model field fields references parent relation rest relations warnings}
    (holds : field.HoldsKey schema fields references parent)
    (isOf : Relation.IsOf schema model field fields references parent relation)
    (behind : schema.Checks rest relations warnings)
    : schema.Checks ((model, field) :: rest) (relation :: relations) warnings
  | due {model field fields references rest relations warnings}
    (isObject : schema.Resolves field.type .object)
    (describes : field.DescribesKey fields references)
    (unknown : schema.IsUnknown field.type)
    (behind : schema.Checks rest relations warnings)
    : schema.Checks ((model, field) :: rest) relations (field.warning model :: warnings)
  | undue {model field fields references rest relations warnings}
    (notObject : ¬schema.Resolves field.type .object)
    (describes : field.DescribesKey fields references)
    (unknown : schema.IsUnknown field.type)
    (behind : schema.Checks rest relations warnings)
    : schema.Checks ((model, field) :: rest) relations (field.warning model :: warnings)
  | silent {model field rest relations warnings}
    (noKey : ∀ fields references parent, ¬field.HoldsKey schema fields references parent)
    (noWarning
      : ∀ fields references,
          field.DescribesKey fields references → ¬schema.IsUnknown field.type)
    (behind : schema.Checks rest relations warnings)
    : schema.Checks ((model, field) :: rest) relations warnings

variable {schema : Schema} {model : Model} {field : Field}

/-- A key of an object field is held unless its target is unknown, and never both. -/
theorem Field.exists_holdsKey_iff {fields references : List String}
    : (∃ parent, field.HoldsKey schema fields references parent)
      ↔ schema.Resolves field.type .object
        ∧ field.DescribesKey fields references
        ∧ ¬schema.IsUnknown field.type := by
  constructor
  · intro held
    obtain ⟨parent, holds⟩ := held
    exact ⟨holds.isObject, ⟨holds.listed, holds.nonempty, holds.paired⟩,
      fun unknown => unknown parent holds.target.mem holds.target.holds⟩
  · intro known
    obtain ⟨isObject, describes, known⟩ := known
    cases found : (Lookup.ofSchema schema).model? field.type.name with
    | none => exact absurd (Lookup.model?_eq_none_iff.mp found) known
    | some parent =>
        exact ⟨parent, isObject, describes.listed, describes.nonempty, describes.paired,
          Lookup.model?_eq_some_iff.mp found⟩

/-- The warning of a field, if a check gives one. -/
def Lookup.warning? (lookup : Lookup) (model : Model) (field : Field)
    : Option UnresolvedRelation :=
  if field.foreignKey?.isSome && (lookup.model? field.type.name).isNone then
    some (field.warning model)
  else none

theorem Schema.unresolvedRelations_eq_filterMap (schema : Schema) (lookup : Lookup)
    : schema.unresolvedRelations lookup
      = schema.ownedFields.filterMap fun owned => lookup.warning? owned.1 owned.2 :=
  schema.flatMap_filterMap_fields lookup.warning?

theorem Lookup.model?_isNone_iff {type : FieldType}
    : ((ofSchema schema).model? type.name).isNone = true ↔ schema.IsUnknown type := by
  rw [Option.isNone_iff_eq_none, model?_eq_none_iff, Schema.IsUnknown]

theorem Field.foreignKey?_isSome_iff
    : field.foreignKey?.isSome = true
      ↔ ∃ fields references, field.DescribesKey fields references := by
  constructor
  · intro isSome
    obtain ⟨key, isKey⟩ := Option.isSome_iff_exists.mp isSome
    obtain ⟨listed, nonempty, paired⟩ := exists_foreignKey?_iff.mp ⟨key, isKey, rfl, rfl⟩
    exact ⟨key.fields, key.references, listed, nonempty, paired⟩
  · intro described
    obtain ⟨fields, references, listed, nonempty, paired⟩ := described
    obtain ⟨key, isKey, -⟩ := exists_foreignKey?_iff.mpr ⟨listed, nonempty, paired⟩
    exact Option.isSome_iff_exists.mpr ⟨key, isKey⟩

namespace Lookup

theorem warning?_eq_some {fields references : List String}
    (describes : field.DescribesKey fields references) (unknown : schema.IsUnknown field.type)
    : (ofSchema schema).warning? model field = some (field.warning model) := by
  have isSome := Field.foreignKey?_isSome_iff.mpr ⟨fields, references, describes⟩
  rw [warning?, isSome, model?_isNone_iff.mpr unknown]
  rfl

theorem warning?_eq_none_iff
    : (ofSchema schema).warning? model field = none
      ↔ ∀ fields references,
          field.DescribesKey fields references → ¬schema.IsUnknown field.type := by
  constructor
  · intro none fields references describes unknown
    simp [warning?_eq_some describes unknown] at none
  · intro noWarning
    rw [warning?, if_neg]
    rw [Bool.and_eq_true, Field.foreignKey?_isSome_iff, model?_isNone_iff]
    rintro ⟨⟨fields, references, describes⟩, unknown⟩
    exact noWarning fields references describes unknown

end Lookup

namespace Schema

/-- What a check makes of a run of fields is what the two filters leave of it. -/
theorem Checks.eq_filters {owned : List (Model × Field)} {relations : List Relation}
    {warnings : List UnresolvedRelation} (checks : schema.Checks owned relations warnings)
    : relations = owned.filterMap (fun o => (Lookup.ofSchema schema).relation? o.1 o.2)
      ∧ warnings = owned.filterMap fun o => (Lookup.ofSchema schema).warning? o.1 o.2 := by
  induction checks with
  | nil => exact ⟨rfl, rfl⟩
  | @relation model field _ _ _ _ _ _ _ holds isOf _ ih =>
      have related := Lookup.relation?_eq_some_iff.mpr ⟨_, _, _, holds, isOf⟩
      have known := (Field.exists_holdsKey_iff.mp ⟨_, holds⟩).2.2
      have noWarning : (Lookup.ofSchema schema).warning? model field = none :=
        Lookup.warning?_eq_none_iff.mpr fun _ _ _ => known
      simp [related, noWarning, ih.1, ih.2]
  | @due model field _ _ _ _ _ _ describes unknown _ ih
  | @undue model field _ _ _ _ _ _ describes unknown _ ih =>
      have noRelation : (Lookup.ofSchema schema).relation? model field = none := by
        refine Lookup.relation?_eq_none_iff.mpr fun fields references parent holds => ?_
        exact (Field.exists_holdsKey_iff.mp ⟨parent, holds⟩).2.2 unknown
      simp [noRelation, Lookup.warning?_eq_some describes unknown, ih.1, ih.2]
  | @silent model field _ _ _ noKey noWarning _ ih =>
      have noRelation : (Lookup.ofSchema schema).relation? model field = none :=
        Lookup.relation?_eq_none_iff.mpr noKey
      have silent : (Lookup.ofSchema schema).warning? model field = none :=
        Lookup.warning?_eq_none_iff.mpr noWarning
      simp [noRelation, silent, ih.1, ih.2]

/-- The two filters make up one pass over the fields. A field that makes no relation is warned of
or silent, and where it is warned of, its kind says whether that is due.
-/
theorem checks_filters (schema : Schema) (owned : List (Model × Field))
    : schema.Checks owned (owned.filterMap fun o => (Lookup.ofSchema schema).relation? o.1 o.2)
        (owned.filterMap fun o => (Lookup.ofSchema schema).warning? o.1 o.2) := by
  induction owned with
  | nil => exact .nil
  | cons o rest ih =>
      obtain ⟨model, field⟩ := o
      rw [List.filterMap_cons, List.filterMap_cons]
      cases related : (Lookup.ofSchema schema).relation? model field with
      | some relation =>
          obtain ⟨fields, references, parent, holds, isOf⟩ :=
            Lookup.relation?_eq_some_iff.mp related
          have known := (Field.exists_holdsKey_iff.mp ⟨_, holds⟩).2.2
          rw [Lookup.warning?_eq_none_iff.mpr fun _ _ _ => known]
          exact .relation holds isOf ih
      | none =>
          by_cases warned
              : ∃ fields references,
                  field.DescribesKey fields references ∧ schema.IsUnknown field.type
          · obtain ⟨fields, references, describes, unknown⟩ := warned
            rw [Lookup.warning?_eq_some describes unknown]
            by_cases isObject : schema.Resolves field.type .object
            · exact .due isObject describes unknown ih
            · exact .undue isObject describes unknown ih
          · have noWarning (fields references : List String)
                (describes : field.DescribesKey fields references)
                : ¬schema.IsUnknown field.type :=
              fun unknown => warned ⟨fields, references, describes, unknown⟩
            rw [Lookup.warning?_eq_none_iff.mpr noWarning]
            exact .silent (Lookup.relation?_eq_none_iff.mp related) noWarning ih

/-- The relations and the warnings of a schema are what one pass over its fields makes. -/
theorem checks_iff (schema : Schema) (owned : List (Model × Field))
    (relations : List Relation) (warnings : List UnresolvedRelation)
    : schema.Checks owned relations warnings
      ↔ relations = owned.filterMap (fun o => (Lookup.ofSchema schema).relation? o.1 o.2)
        ∧ warnings = owned.filterMap fun o => (Lookup.ofSchema schema).warning? o.1 o.2 := by
  constructor
  · exact Checks.eq_filters
  · rintro ⟨rfl, rfl⟩
    exact schema.checks_filters owned

end Schema

/-- The relations of a document and the warnings of a check are those of one pass over the fields
of the schema. Each key of an object field makes one of them, and each key of another field whose
type no model is named like makes a warning that is undue.
-/
theorem checks_iff_summary (heading : Heading) (schema : Schema) (relations : List Relation)
    (warnings : List UnresolvedRelation)
    : schema.Checks schema.ownedFields relations warnings
      ↔ relations = (Document.ofSchema heading schema).relations
        ∧ warnings = (Command.Summary.ofSchema schema).unresolved := by
  rw [Schema.checks_iff, Document.ofSchema, Command.Summary.ofSchema,
    Schema.relations_eq_filterMap, Schema.unresolvedRelations_eq_filterMap]

/-- A field of a built-in type is warned of, though its column is in the document. -/
theorem warning_of_column
    : let text := "model A { x Int @relation(fields: [x], references: [x]) }"
      (Schema.ofText false text).toOption.map (fun schema =>
          (Command.Summary.ofSchema schema).unresolved)
          = some [⟨"A", "x", "Int"⟩]
        ∧ (Schema.ofText false text).toOption.map (fun schema =>
            (Document.ofSchema default schema).tables.map fun table =>
              table.columns.map Column.name)
          = some [["x"]] := by
  decide +kernel

end SchemaDoc
