import SchemaDoc.Proofs.Schema.Resolution
import SchemaDoc.Schema.Construction

/-! The index of a schema against a search through its declarations.
Insertions keep what is there, so a name that is declared several times leads to its first
declaration. Two declarations can be equal, and then their values do not tell which of them was
found. So the models are also inserted with their positions, which changes nothing else.
-/

namespace SchemaDoc

-----------------------------------------------------------------------------------------
-- Values of a directory
-----------------------------------------------------------------------------------------

namespace Directory

variable {α β : Type}

/-- The directory with a function applied to all its values. -/
def map (f : α → β) (directory : Directory α) : Directory β :=
  ⟨directory.entries.map fun entry => (entry.1, f entry.2)⟩

theorem get?_map (f : α → β) (directory : Directory α) (name : String)
    : (directory.map f).get? name = (directory.get? name).map f := by
  rw [get?, get?, map, List.find?_map, Option.map_map, Option.map_map]
  rfl

/-- Whether a name has a value already does not depend on the values. -/
theorem map_insertIfNew (f : α → β) (directory : Directory α) (name : String) (x : α)
    : (directory.insertIfNew name x).map f = (directory.map f).insertIfNew name (f x) := by
  rw [insertIfNew, insertIfNew, get?_map, Option.isSome_map]
  split
  · rfl
  · simp [map]

theorem map_foldl_insertIfNew (f : α → β) (name : β → String) (xs : List α)
    (directory : Directory α)
    : (xs.foldl (fun directory x => directory.insertIfNew (name (f x)) x) directory).map f
      = (xs.map f).foldl (fun directory y => directory.insertIfNew (name y) y)
          (directory.map f) := by
  induction xs generalizing directory with
  | nil => rfl
  | cons x xs ih => rw [List.foldl_cons, ih, map_insertIfNew, List.map_cons, List.foldl_cons]

/-- Of its values a directory reads the names only, so they can be changed before the insertions or
behind them.
-/
theorem map_ofList (f : α → β) (name : β → String) (xs : List α)
    : (ofList (fun x => name (f x)) xs).map f = ofList name (xs.map f) :=
  map_foldl_insertIfNew f name xs empty

end Directory

-----------------------------------------------------------------------------------------
-- Models by name and position
-----------------------------------------------------------------------------------------

/-- The models of a schema by declared name, each with its position among the declarations. -/
def Schema.placedModels (schema : Schema) : Directory (Model × Nat) :=
  .ofList (·.1.name.name) schema.models.zipIdx

/-- The index is that directory with the positions taken off. -/
theorem Lookup.models_ofSchema (schema : Schema)
    : (ofSchema schema).models = schema.placedModels.map Prod.fst := by
  have unplaced : schema.placedModels.map Prod.fst
      = .ofList (·.name.name) (schema.models.zipIdx.map Prod.fst) :=
    Directory.map_ofList Prod.fst (fun model : Model => model.name.name) schema.models.zipIdx
  rw [unplaced, List.zipIdx_map_fst, ofSchema]

/-- Under a name is the model at the position where a search for that name stops. -/
theorem Schema.get?_placedModels (schema : Schema) (name : String)
    : schema.placedModels.get? name
      = (schema.modelPosition? name).bind fun position =>
          schema.models[position]?.map (·, position) := by
  have searched : schema.modelPosition? name = (schema.placedModels.get? name).map Prod.snd := by
    rw [placedModels, Directory.get?_ofList, modelPosition?, List.findIdx?_eq_fst_find?_zipIdx]
  rw [searched]
  cases found : schema.placedModels.get? name with
  | none => rfl
  | some placed =>
      obtain ⟨model, position⟩ := placed
      rw [placedModels, Directory.get?_ofList] at found
      have isThere : schema.models[position]? = some model :=
        List.mem_zipIdx_iff_getElem?.mp (List.mem_of_find?_eq_some found)
      simp [isThere]

-----------------------------------------------------------------------------------------
-- Kinds of fields
-----------------------------------------------------------------------------------------

namespace Schema

variable {schema : Schema} {type : FieldType} {kind : FieldKind}

/-- A type is an enum where it says so, or where it looks like a model and an enum of its name is
declared.
-/
theorem resolves_enum_iff
    : schema.Resolves type .enum
      ↔ (∃ name, type = .enum name)
        ∨ ∃ name, type = .object name ∧ ∃ enum ∈ schema.enums, enum.name.name = name := by
  constructor
  · intro resolves
    cases resolves with
    | enum => exact .inl ⟨_, rfl⟩
    | declared isEnum => exact .inr ⟨_, rfl, isEnum⟩
  · intro isEnum
    rcases isEnum with ⟨name, rfl⟩ | ⟨name, rfl, isEnum⟩
    · exact .enum
    · exact .declared isEnum

/-- Only a declared enum changes the kind that a type has by itself. -/
theorem Resolves.eq_enum_or_eq_kind (resolves : schema.Resolves type kind)
    : kind = .enum ∨ kind = type.kind := by
  cases resolves with
  | declared => exact .inl rfl
  | scalar | native | enum | object | unsupported => exact .inr rfl

end Schema

-----------------------------------------------------------------------------------------
-- The index and the search
-----------------------------------------------------------------------------------------

/-- The index of a schema finds what a search through the declarations finds. Under a name is its
first model, which is the one at the position where the search stops, even if others are equal to
it. A name is that of an enum where one is declared, and this decides which fields are enums: those
whose type says so, or looks like a model and has such a name. All other fields have the kind of
their type.
-/
theorem Lookup.index_agrees_with_search (schema : Schema) (name : String) (model : Model)
    (field : Field)
    : (ofSchema schema).model? name = schema.model? name
      ∧ ((ofSchema schema).model? name = some model
          ↔ IsFirst (·.name.name = name) schema.models model)
      ∧ ((ofSchema schema).model? name = none
          ↔ ∀ other ∈ schema.models, other.name.name ≠ name)
      ∧ (ofSchema schema).models = schema.placedModels.map Prod.fst
      ∧ schema.placedModels.get? name
        = ((schema.modelPosition? name).bind fun position =>
            schema.models[position]?.map (·, position))
      ∧ (ofSchema schema).isEnum name = schema.isEnum name
      ∧ ((ofSchema schema).isEnum name = true
          ↔ ∃ enum ∈ schema.enums, enum.name.name = name)
      ∧ ((ofSchema schema).kind field = .enum
          ↔ (∃ enumName, field.type = .enum enumName)
            ∨ ∃ typeName,
                field.type = .object typeName
                ∧ ∃ enum ∈ schema.enums, enum.name.name = typeName)
      ∧ ((ofSchema schema).kind field = .enum
          ∨ (ofSchema schema).kind field = field.type.kind) := by
  refine ⟨model?_ofSchema schema name, model?_eq_some_iff, model?_eq_none_iff,
    models_ofSchema schema, schema.get?_placedModels name, isEnum_ofSchema schema name,
    ?_, ?_, ?_⟩
  · rw [isEnum_ofSchema, Schema.isEnum_iff]
  · rw [kind_eq_iff, Schema.resolves_enum_iff]
  · exact (resolves_kind schema field).eq_enum_or_eq_kind

/-- Three declarations of a name, the first two of them equal: the position tells them apart. -/
example
    : let one := (Model.unplaced "A").addField (.unplaced "x" (.scalar .int))
      let two := one.addField (.unplaced "y" (.object "A"))
      let schema : Schema := ⟨[.unplaced "B", one, one, two], [.unplaced "A", .unplaced "A"]⟩
      (Lookup.ofSchema schema).model? "A" = some one
      ∧ schema.placedModels.get? "A" = some (one, 1)
      ∧ two.fields.map (Lookup.ofSchema schema).kind = [.scalar, .enum] := by
  decide

end SchemaDoc
