import SchemaDoc.Description.Reading
import SchemaDoc.Description.Schema
import SchemaDoc.Proofs.Json.Extension

/-! Descriptions with members that nobody asks for.
Tools that describe a data model say more about it than a schema holds. Whatever stands under
names that are not known, in objects of all kinds, neither changes the schema nor the reason why
a description is refused.
-/

namespace SchemaDoc.Description

open Json Shape

-----------------------------------------------------------------------------------------
-- Where members may be added
-----------------------------------------------------------------------------------------

/-- A default may have more members when it is an object; of a call only `name` is read. -/
def Field.parts : Parts
  | "default" => RecordExtends ["name"] .fixed
  | _ => Eq

/-- The fields of a model and its primary key may have more members. -/
def Model.parts : Parts
  | "fields" => ListExtends (RecordExtends Field.shape.slotNames Field.parts)
  | "primaryKey" => RecordExtends Key.shape.slotNames .fixed
  | _ => Eq

/-- The values of an enum may have more members. -/
def Enum.parts : Parts
  | "values" => ListExtends (RecordExtends EnumValue.shape.slotNames .fixed)
  | _ => Eq

/-- The fields that an index lists may have more members. -/
def Index.parts : Parts
  | "fields" => ListExtends (RecordExtends Index.fieldShape.slotNames .fixed)
  | _ => Eq

/-- The models, enums and indexes of a description may have more members. -/
def parts : Parts
  | "models" => ListExtends (RecordExtends Model.shape.slotNames Model.parts)
  | "enums" => ListExtends (RecordExtends Enum.shape.slotNames Enum.parts)
  | "indexes" => ListExtends (RecordExtends Index.shape.slotNames Index.parts)
  | _ => Eq

/-- A description with members added under names that are not known. Without a member `datamodel`
it is an object that gets no such member either; with one, all that counts is what stands
under it, and this is extended.
-/
inductive Extends : Json → Json → Prop
  | refl {value} : Extends value value
  | bare {members members'} (unwrapped : "datamodel" ∉ members'.map Prod.fst)
    (extend : MembersExtend shape.slotNames parts members members')
    : Extends (.object members) (.object members')
  | wrapped {members members' content content'}
    (found : members.find? (·.1 == "datamodel") = some ("datamodel", content))
    (found' : members'.find? (·.1 == "datamodel") = some ("datamodel", content'))
    (extend : RecordExtends shape.slotNames parts content content')
    : Extends (.object members) (.object members')

-----------------------------------------------------------------------------------------
-- Described parts
-----------------------------------------------------------------------------------------

/-- A call keeps its function. -/
theorem defaultOf_extend {value value' : Json} (extend : RecordExtends ["name"] .fixed value value')
    : defaultOf value' = defaultOf value := by
  cases extend with
  | refl => rfl
  | object extend => simp only [defaultOf, extend.find?_eq (List.mem_singleton_self "name")]
  | array => rfl

/-- Described fields that differ in their defaults only, which stand for the same value. -/
def Field.SameDefault (field field' : Field) : Prop :=
  ∃ default, field' = { field with default } ∧ default.bind defaultOf = field.default.bind defaultOf

theorem Field.SameDefault.refl (field : Field) : field.SameDefault field := ⟨_, rfl, rfl⟩

theorem Field.SameDefault.toField_eq {field field' : Field} (same : field.SameDefault field')
    : field'.toField = field.toField := by
  obtain ⟨default, rfl, sameValue⟩ := same
  have sameDefault : Field.default? { field with default } = field.default? := by
    rw [Field.default?, Field.default?, sameValue]
  have sameAttributes : Field.attributes { field with default } = field.attributes := by
    rw [Field.attributes, Field.attributes, sameDefault]
    rfl
  rw [toField, toField, sameAttributes]
  rfl

theorem Field.readsAlike
    : ReadsAlike (RecordExtends Field.shape.slotNames Field.parts) Field.SameDefault
        (asRecord Field.shape) := by
  refine readsAlike_asRecord ?_ Field.SameDefault.refl
  have call : ReadsAlike (RecordExtends ["name"] .fixed)
      (fun value value' => defaultOf value' = defaultOf value) Except.ok :=
    fun _ _ extend => .ok (defaultOf_extend extend)
  simp only [Field.shape, List.forall_mem_cons, List.not_mem_nil, false_implies,
    implies_true, and_true]
  and_intros
  any_goals
    refine putsAlike_of_fixed rfl _ _ ?_
    rintro field _ x ⟨default, rfl, same⟩
    exact ⟨default, rfl, same⟩
  -- The default is the only part that is left.
  refine putsAlike_ofReader (call.asOption fun _ _ => RecordExtends.null_iff) _ ?_
  rintro field _ value? value?' ⟨_, rfl, _⟩ same
  refine ⟨value?', rfl, ?_⟩
  cases same with
  | none => rfl
  | some sameValue => exact sameValue

/-- Described models whose fields differ in their defaults only. -/
def Model.SameDefaults (model model' : Model) : Prop :=
  ∃ fields, model' = { model with fields } ∧ List.Forall₂ Field.SameDefault model.fields fields

theorem Model.SameDefaults.refl (model : Model) : model.SameDefaults model :=
  ⟨_, rfl, List.forall₂_same.mpr fun field _ => .refl field⟩

theorem Model.SameDefaults.toModel_eq {model model' : Model} (same : model.SameDefaults model')
    (indexes : List Index)
    : model'.toModel indexes = model.toModel indexes := by
  obtain ⟨fields, rfl, sameFields⟩ := same
  have fields_eq : model.fields.map Field.toField = fields.map Field.toField :=
    map_eq_of_forall₂ sameFields fun _ _ same => same.toField_eq.symm
  rw [toModel, toModel, fields_eq]
  rfl

theorem Model.readsAlike
    : ReadsAlike (RecordExtends Model.shape.slotNames Model.parts) Model.SameDefaults
        (asRecord Model.shape) := by
  refine readsAlike_asRecord ?_ Model.SameDefaults.refl
  simp only [Model.shape, List.forall_mem_cons, List.not_mem_nil, false_implies,
    implies_true, and_true]
  and_intros
  any_goals
    refine putsAlike_of_fixed rfl _ _ ?_
    rintro model _ x ⟨fields, rfl, same⟩
    exact ⟨fields, rfl, same⟩
  -- Left are the fields, and then the primary key.
  · refine putsAlike_ofReader (Field.readsAlike.asList Field.SameDefault.refl) _ ?_
    rintro model _ fields fields' ⟨_, rfl, _⟩ same
    exact ⟨fields', rfl, same⟩
  · have key := (readsAlike_asRecord_fixed Key.shape).asOption fun _ _ => RecordExtends.null_iff
    refine putsAlike_ofReader key _ ?_
    rintro model _ key key' ⟨fields, rfl, same⟩ sameKey
    obtain rfl : key = key' := by cases sameKey <;> simp_all
    exact ⟨fields, rfl, same⟩

theorem Enum.readsAlike
    : ReadsAlike (RecordExtends Enum.shape.slotNames Enum.parts) Eq (asRecord Enum.shape) := by
  refine readsAlike_asRecord ?_ fun _ => rfl
  simp only [Enum.shape, List.forall_mem_cons, List.not_mem_nil, false_implies, implies_true,
    and_true]
  and_intros
  any_goals
    refine putsAlike_of_fixed rfl _ _ ?_
    rintro enum _ x rfl
    rfl
  -- The values are the only part that is left.
  refine putsAlike_ofReader (readsAlike_asRecord_fixed EnumValue.shape).asList_eq _ ?_
  rintro enum _ values _ rfl rfl
  rfl

theorem Index.readsAlike
    : ReadsAlike (RecordExtends Index.shape.slotNames Index.parts) Eq (asRecord Index.shape) := by
  refine readsAlike_asRecord ?_ fun _ => rfl
  simp only [Index.shape, List.forall_mem_cons, List.not_mem_nil, false_implies, implies_true,
    and_true]
  and_intros
  any_goals
    refine putsAlike_of_fixed rfl _ _ ?_
    rintro index _ x rfl
    rfl
  -- The fields are the only part that is left.
  refine putsAlike_ofReader (readsAlike_asRecord_fixed Index.fieldShape).asList_eq _ ?_
  rintro index _ fields _ rfl rfl
  rfl

-----------------------------------------------------------------------------------------
-- Whole descriptions
-----------------------------------------------------------------------------------------

/-- Descriptions whose fields differ in their defaults only. -/
def SameDefaults (description description' : Description) : Prop :=
  ∃ models, description' = { description with models }
    ∧ List.Forall₂ Model.SameDefaults description.models models

theorem SameDefaults.refl (description : Description) : description.SameDefaults description :=
  ⟨_, rfl, List.forall₂_same.mpr fun model _ => .refl model⟩

theorem SameDefaults.toSchema_eq {description description' : Description}
    (same : description.SameDefaults description')
    : description'.toSchema = description.toSchema := by
  obtain ⟨models, rfl, sameModels⟩ := same
  have models_eq : description.models.map (Model.toModel description.indexes)
      = models.map (Model.toModel description.indexes) :=
    map_eq_of_forall₂ sameModels fun _ _ same => (same.toModel_eq _).symm
  rw [toSchema, toSchema, models_eq]

theorem readsAlike
    : ReadsAlike (RecordExtends shape.slotNames parts) SameDefaults (asRecord shape) := by
  refine readsAlike_asRecord ?_ SameDefaults.refl
  simp only [shape, List.forall_mem_cons, List.not_mem_nil, false_implies, implies_true, and_true]
  refine ⟨?models, ?enums, ?indexes⟩
  case models =>
    refine putsAlike_ofReader (Model.readsAlike.asList Model.SameDefaults.refl) _ ?_
    rintro description _ models models' ⟨_, rfl, _⟩ same
    exact ⟨models', rfl, same⟩
  case enums =>
    refine putsAlike_ofReader Enum.readsAlike.asList_eq _ ?_
    rintro description _ enums _ ⟨models, rfl, same⟩ rfl
    exact ⟨models, rfl, same⟩
  case indexes =>
    refine putsAlike_ofReader Index.readsAlike.asList_eq _ ?_
    rintro description _ indexes _ ⟨models, rfl, same⟩ rfl
    exact ⟨models, rfl, same⟩

theorem content_of_unwrapped {members : List (String × Json)}
    (unwrapped : "datamodel" ∉ members.map Prod.fst)
    : content (.object members) = .ok (.object members) := by
  have notFound : members.find? (·.1 == "datamodel") = none := by
    refine List.find?_eq_none.mpr fun member isMember isNamed => unwrapped ?_
    exact List.mem_map.mpr ⟨member, isMember, by simpa using isNamed⟩
  rw [content, notFound]

theorem ofJson_of_content {value value' inner inner' : Json} (isContent : content value = .ok inner)
    (isContent' : content value' = .ok inner')
    (extend : RecordExtends shape.slotNames parts inner inner')
    : (ofJson value').map toSchema = (ofJson value).map toSchema := by
  have agree := readsAlike inner inner' extend
  simp only [ofJson, isContent, isContent', bind, Except.bind]
  generalize asRecord shape inner = result, asRecord shape inner' = result' at agree
  cases agree with
  | ok same =>
      simp only [Except.mapError, Except.map]
      rw [same.toSchema_eq]
  | error => rfl

/-- A description with members that are not known gives the same schema, or is refused for the same
reason.
-/
theorem unknown_members_do_not_matter {value value' : Json} (extend : Extends value value')
    : (ofJson value').map toSchema = (ofJson value).map toSchema := by
  cases extend with
  | refl => rfl
  | bare unwrapped extend =>
      have unwrappedBefore := fun isMember => unwrapped (extend.names_subset isMember)
      exact ofJson_of_content (content_of_unwrapped unwrappedBefore)
        (content_of_unwrapped unwrapped) (.object extend)
  | @wrapped _ _ inner _ found found' extend =>
      cases extend with
      | object extend =>
          refine ofJson_of_content ?_ ?_ (.object extend)
          · rw [content, found]
          · rw [content, found']
      | refl =>
          rw [ofJson, ofJson, content, content, found, found']
          cases inner <;> rfl
      | array =>
          rw [ofJson, ofJson, content, content, found, found']

/-- Objects of all depths have members that are not known: a call, its field, the model, the
description and what the description is wrapped in.
-/
theorem unknown_members_do_not_matter_call
    : let call : List (String × Json) := [("name", .string "now")]
      let field (call : List (String × Json)) : List (String × Json) :=
        [("default", .object call), ("kind", .string "scalar"), ("name", .string "at"),
          ("type", .string "DateTime")]
      let model (field : List (String × Json)) : List (String × Json) :=
        [("fields", .array [.object field]), ("name", .string "Event")]
      let description (model : List (String × Json)) : List (String × Json) :=
        [("models", .array [.object model])]
      let value : Json := .object [("datamodel", .object (description (model (field call))))]
      let call' := insertMember "args" (.array []) call
      let field' := insertMember "isGenerated" (.bool false) (field call')
      let model' := insertMember "isGenerated" (.bool false) (model field')
      let description' := insertMember "datamodel" .null (description model')
      let value' : Json := .object (insertMember "schema" .null [("datamodel", .object description')])
      Extends value value'
        ∧ (ofJson value').map toSchema = (ofJson value).map toSchema
        ∧ ((ofJson value').map toSchema).toOption.map (fun schema =>
            schema.models.flatMap fun model => model.fields.map fun field => field.default?)
          = some [some (.call "now")] := by
  intro call field model description value call' field' model' description' value'
  have ofCall : MembersExtend ["name"] .fixed call call' :=
    .insertMember (.keep rfl .nil) (by decide) (by decide) _
  have ofField : MembersExtend Field.shape.slotNames Field.parts (field call) field' :=
    .insertMember (.keep (.object ofCall) (.keep rfl (.keep rfl (.keep rfl .nil)))) (by decide)
      (by simp) _
  have ofModel : MembersExtend Model.shape.slotNames Model.parts (model (field call)) model' :=
    .insertMember (.keep (.array (.cons (.object ofField) .nil)) (.keep rfl .nil)) (by decide)
      (by simp) _
  have ofDescription
      : MembersExtend shape.slotNames parts (description (model (field call))) description' :=
    .insertMember (.keep (.array (.cons (.object ofModel) .nil)) .nil) (by decide)
      (by simp) _
  have extend : Extends value value' := .wrapped rfl rfl (.object ofDescription)
  have same := unknown_members_do_not_matter extend
  refine ⟨extend, same, ?_⟩
  rw [same]
  decide +kernel

end SchemaDoc.Description
