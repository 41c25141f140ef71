import Mathlib.Data.List.Find
import Mathlib.Data.List.Nodup
import SchemaDoc.Proofs.Document.Relations
import SchemaDoc.Schema.Construction

/-! The order of declarations changes only the order of a document.
Where no name is declared twice, the index of a schema finds the same declarations in every
order, so each model keeps its table and its relations.
-/

namespace SchemaDoc

-----------------------------------------------------------------------------------------
-- Lists in another order
-----------------------------------------------------------------------------------------

/-- The elements of a list at some positions, in the order in which these are given. -/
def rearrange {α : Type} (order : List Nat) (xs : List α) : List α := order.filterMap (xs[·]?)

/-- An order has every position of a list once. -/
def IsOrderOf {α : Type} (order : List Nat) (xs : List α) : Prop :=
  order.Perm (List.range xs.length)

theorem map_rearrange {α β : Type} (f : α → β) (order : List Nat) (xs : List α)
    : (rearrange order xs).map f = rearrange order (xs.map f) := by
  simp only [rearrange, List.map_filterMap, List.getElem?_map]

theorem rearrange_range {α : Type} (xs : List α) : rearrange (List.range xs.length) xs = xs := by
  induction xs with
  | nil => rfl
  | cons x xs ih =>
      rw [rearrange, List.length_cons, List.range_succ_eq_map, List.filterMap_cons,
        List.filterMap_map]
      exact congrArg (x :: ·) ih

theorem IsOrderOf.perm {α : Type} {order : List Nat} {xs : List α} (once : IsOrderOf order xs)
    : (rearrange order xs).Perm xs := by
  have same := List.Perm.filterMap (xs[·]?) once
  rwa [← rearrange, ← rearrange, rearrange_range] at same

/-- A search for a name that no other element has finds the same in every order. -/
theorem find?_rearrange {α : Type} {order : List Nat} {xs : List α} (once : IsOrderOf order xs)
    {name : α → String} (distinct : (xs.map name).Nodup) (key : String)
    : (rearrange order xs).find? (name · == key) = xs.find? (name · == key) := by
  refine (List.find?_eq_find?_of_perm once.perm.symm ?_).symm
  intro x isX y isY
  have sameName : name x = name y := (beq_iff_eq.mp isX.2).trans (beq_iff_eq.mp isY.2).symm
  exact List.inj_on_of_nodup_map distinct isX.1 isY.1 sameName

-----------------------------------------------------------------------------------------
-- Schemas in another order
-----------------------------------------------------------------------------------------

/-- A schema with its models and its enums each in another order. -/
def Schema.rearrange (schema : Schema) (modelOrder enumOrder : List Nat) : Schema :=
  ⟨SchemaDoc.rearrange modelOrder schema.models, SchemaDoc.rearrange enumOrder schema.enums⟩

/-- No name is declared twice for a model, and none for an enum. -/
structure Schema.HasDistinctNames (schema : Schema) : Prop where
  models : (schema.models.map (·.name.name)).Nodup
  enums : (schema.enums.map (·.name.name)).Nodup

namespace Lookup

variable {lookup lookup' : Lookup}

theorem kind_congr (enums : lookup.isEnum = lookup'.isEnum) : lookup.kind = lookup'.kind := by
  funext field
  rw [kind, kind, enums]

theorem toTable_congr (enums : lookup.isEnum = lookup'.isEnum)
    : Model.toTable lookup = Model.toTable lookup' := by
  have isColumn : lookup.isColumn = lookup'.isColumn := by
    funext field
    rw [isColumn, isColumn, kind_congr enums]
  funext model
  rw [Model.toTable, Model.toTable, Model.columns, Model.columns, isColumn]

/-- The relations of a model depend on an index through the models and enums it finds. -/
theorem relationsOf_congr (models : lookup.model? = lookup'.model?)
    (enums : lookup.isEnum = lookup'.isEnum)
    : lookup.relationsOf = lookup'.relationsOf := by
  have refersTo : lookup.refersTo = lookup'.refersTo := by
    funext name field
    rw [refersTo, refersTo, kind_congr enums]
  have relation : lookup.relation = lookup'.relation := by
    funext model field key parent
    simp only [relation, parentCardinality, refersTo]
  have relation? : lookup.relation? = lookup'.relation? := by
    funext model field
    rw [relation?, relation?, kind_congr enums, models, relation]
  funext model
  rw [relationsOf, relationsOf, relation?]

variable {schema : Schema} {modelOrder enumOrder : List Nat}

theorem model?_rearrange (distinct : schema.HasDistinctNames)
    (once : IsOrderOf modelOrder schema.models)
    : (ofSchema (schema.rearrange modelOrder enumOrder)).model? = (ofSchema schema).model? := by
  funext name
  rw [model?_ofSchema, model?_ofSchema]
  exact find?_rearrange once distinct.models name

theorem isEnum_rearrange (distinct : schema.HasDistinctNames)
    (once : IsOrderOf enumOrder schema.enums)
    : (ofSchema (schema.rearrange modelOrder enumOrder)).isEnum = (ofSchema schema).isEnum := by
  funext name
  rw [isEnum_ofSchema, isEnum_ofSchema]
  exact congrArg Option.isSome (find?_rearrange once distinct.enums name)

end Lookup

-----------------------------------------------------------------------------------------
-- Documents in another order
-----------------------------------------------------------------------------------------

/-- A group of relations is what the fields of a model make, in field order. -/
def Model.Makes (schema : Schema) (model : Model) (group : List Relation) : Prop :=
  ∃ columns, schema.Yields (model.fields.map (model, ·)) columns group

theorem Model.makes_relationsOf (schema : Schema) (model : Model)
    : model.Makes schema ((Lookup.ofSchema schema).relationsOf model) := by
  refine ⟨_, (schema.yields_iff _ _ _).mpr ⟨rfl, ?_⟩⟩
  rw [List.filterMap_map]
  rfl

section

variable (heading : Heading) {schema : Schema} {modelOrder enumOrder : List Nat}
  (distinct : schema.HasDistinctNames) (modelsOnce : IsOrderOf modelOrder schema.models)
  (enumsOnce : IsOrderOf enumOrder schema.enums)

include distinct enumsOnce

theorem Document.tables_rearrange
    : (ofSchema heading (schema.rearrange modelOrder enumOrder)).tables
      = rearrange modelOrder (ofSchema heading schema).tables := by
  have enums
      : (Lookup.ofSchema (schema.rearrange modelOrder enumOrder)).isEnum
        = (Lookup.ofSchema schema).isEnum :=
    Lookup.isEnum_rearrange distinct enumsOnce
  simp only [ofSchema, Schema.rearrange, ← map_rearrange] at enums ⊢
  rw [Lookup.toTable_congr enums]

include modelsOnce

theorem Document.relations_rearrange
    : (ofSchema heading (schema.rearrange modelOrder enumOrder)).relations
      = (rearrange modelOrder
          (schema.models.map (Lookup.ofSchema schema).relationsOf)).flatten := by
  have models
      : (Lookup.ofSchema (schema.rearrange modelOrder enumOrder)).model?
        = (Lookup.ofSchema schema).model? :=
    Lookup.model?_rearrange distinct modelsOnce
  have enums
      : (Lookup.ofSchema (schema.rearrange modelOrder enumOrder)).isEnum
        = (Lookup.ofSchema schema).isEnum :=
    Lookup.isEnum_rearrange distinct enumsOnce
  rw [ofSchema, Schema.relations, Lookup.relationsOf_congr models enums, ← map_rearrange,
    List.flatMap_def]
  rfl

/-- In another order of declarations, a document has the same tables, enums and relations in
that order. The relations of a model stay together as they are.
-/
theorem document_rearranged
    : let document := Document.ofSchema heading schema
      let rearranged := Document.ofSchema heading (schema.rearrange modelOrder enumOrder)
      rearranged.tables = rearrange modelOrder document.tables
        ∧ rearranged.enums = rearrange enumOrder document.enums
        ∧ (∃ groups,
            List.Forall₂ (Model.Makes schema) schema.models groups
            ∧ document.relations = groups.flatten
            ∧ rearranged.relations = (rearrange modelOrder groups).flatten)
        ∧ rearranged.name = document.name
        ∧ rearranged.description = document.description
        ∧ rearranged.driver = document.driver := by
  intro document rearranged
  let groups := schema.models.map (Lookup.ofSchema schema).relationsOf
  have made : List.Forall₂ (Model.Makes schema) schema.models groups :=
    forall₂_map_self fun model _ => model.makes_relationsOf schema
  have together : document.relations = groups.flatten := List.flatMap_def ..
  exact ⟨Document.tables_rearrange heading distinct enumsOnce, map_rearrange ..,
    ⟨groups, made, together,
      Document.relations_rearrange heading distinct modelsOnce enumsOnce⟩, rfl, rfl, rfl⟩

end

/-- A model that comes behind the one that refers to it, and an enum behind its use, can come in
front of them.
-/
theorem document_rearranged_post_user
    : let author := (Field.unplaced "author" (.object "User")).addAttribute
        (.unplaced "relation"
          [.named "fields" (.list ["authorId"]), .named "references" (.list ["id"])])
      let post := ((Model.unplaced "Post").addField
        (.unplaced "authorId" (.scalar .int))).addField author
      let posts : Field := { Field.unplaced "posts" (.object "Post") with isList := true }
      let user := (((Model.unplaced "User").addField (.unplaced "id" (.scalar .int))).addField
        (.unplaced "role" (.object "Role"))).addField posts
      let schema : Schema := ⟨[post, user], [.unplaced "State", .unplaced "Role"]⟩
      let document := Document.ofSchema default schema
      let rearranged := Document.ofSchema default (schema.rearrange [1, 0] [1, 0])
      schema.HasDistinctNames
        ∧ IsOrderOf [1, 0] schema.models
        ∧ IsOrderOf [1, 0] schema.enums
        ∧ document.tables.map Table.name = ["post", "user"]
        ∧ document.relations.map Relation.parentCardinality = [.zeroOrMore]
        ∧ rearranged.tables = rearrange [1, 0] document.tables
        ∧ rearranged.enums = rearrange [1, 0] document.enums
        ∧ ∃ groups,
            List.Forall₂ (Model.Makes schema) schema.models groups
            ∧ document.relations = groups.flatten
            ∧ rearranged.relations = (rearrange [1, 0] groups).flatten := by
  intro author post posts user schema document rearranged
  have distinct : schema.HasDistinctNames := ⟨by decide, by decide⟩
  have modelsOnce : IsOrderOf [1, 0] schema.models := .swap 0 1 []
  have enumsOnce : IsOrderOf [1, 0] schema.enums := .swap 0 1 []
  obtain ⟨tables, enums, relations, -⟩ :=
    document_rearranged default distinct modelsOnce enumsOnce
  exact ⟨distinct, modelsOnce, enumsOnce, by decide, by decide, tables, enums, relations⟩

end SchemaDoc
