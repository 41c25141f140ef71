import SchemaDoc.Proofs.Document.Relations
import SchemaDoc.Schema.Construction
import SchemaDoc.Schema.Reader

/-! Which field of a parent is the reverse of a foreign key: the first other one that refers back
to the child. A key of a model to itself refers back as well, and where it does so in front of
all other fields it is taken for its own reverse.
-/

namespace SchemaDoc

/-- A search that ends in front of an element does not miss that element. -/
theorem find?_eraseIdx {α : Type} {p : α → Bool} {xs : List α} {k : Nat}
    (earlier : ∃ x ∈ xs.take k, p x = true)
    : (xs.eraseIdx k).find? p = xs.find? p := by
  have found : ((xs.take k).find? p).isSome = true := List.find?_isSome.mpr earlier
  obtain ⟨x, isFound⟩ := Option.isSome_iff_exists.mp found
  conv_rhs => rw [← List.take_append_drop k xs]
  rw [List.eraseIdx_eq_take_drop_succ, List.find?_append, List.find?_append, isFound,
    Option.some_or, Option.some_or]

/-- The field at an index of the model at a position. -/
structure Schema.HasField (schema : Schema) (position index : Nat) (model : Model)
    (field : Field)
    : Prop where
  isModel : schema.models[position]? = some model
  isField : model.fields[index]? = some field

/-- A model without the field at an index. -/
def Model.eraseField (model : Model) (index : Nat) : Model :=
  { model with fields := model.fields.eraseIdx index }

/-- What the reverse of a key bears. The key is the field at an index of the child, which is the
model at a position; the parent is the model at the position of the target. A parent that is
another declaration than the child has other fields only.
-/
inductive Model.ReverseBears (schema : Schema) (position index target : Nat)
    (child parent : Model) (key : Field)
    : Cardinality → Prop
  | elsewhere {cardinality} (apart : target ≠ position)
    (sees : parent.Sees schema child cardinality)
    : ReverseBears schema position index target child parent key cardinality
  | sibling {cardinality} (own : target = position)
    (earlier : ∃ field ∈ parent.fields.take index, field.RefersTo schema child)
    (sees : (parent.eraseField index).Sees schema child cardinality)
    : ReverseBears schema position index target child parent key cardinality
  | itself {cardinality} (own : target = position)
    (first : ∀ field ∈ parent.fields.take index, ¬field.RefersTo schema child)
    (bears : key.Bears cardinality)
    : ReverseBears schema position index target child parent key cardinality

variable {schema : Schema} {child parent : Model} {position index target : Nat}
  {key : Field} {cardinality : Cardinality}

theorem Schema.modelPosition?_of_isFirst {name : String}
    (first : IsFirst (·.name.name = name) schema.models parent)
    : ∃ target,
        schema.modelPosition? name = some target ∧ schema.models[target]? = some parent := by
  obtain ⟨before, after, split, named, earlier⟩ := first
  refine ⟨before.length, ?_, by simp [split]⟩
  rw [modelPosition?, split, List.findIdx?_append]
  have absent : before.findIdx? (·.name.name == name) = none := by simpa using earlier
  have isNamed : parent.name.name = name := named
  simp [absent, List.findIdx?_cons, isNamed]

/-- Without a field behind the first one that refers back, a parent sees the same. -/
theorem Model.sees_eraseField_iff
    (earlier : ∃ field ∈ parent.fields.take index, field.RefersTo schema child)
    : (parent.eraseField index).Sees schema child cardinality
      ↔ parent.Sees schema child cardinality := by
  obtain ⟨field, isEarlier, refersTo⟩ := earlier
  have found := find?_eraseIdx ⟨field, isEarlier, Lookup.refersTo_iff.mpr refersTo⟩
  rw [← Lookup.parentCardinality_eq_iff, ← Lookup.parentCardinality_eq_iff,
    Lookup.parentCardinality, Lookup.parentCardinality, eraseField, found]

/-- Where a field refers back and none in front of it does, that field is what is seen. -/
theorem Model.sees_iff_bears (isField : parent.fields[index]? = some key)
    (refersTo : key.RefersTo schema child)
    (first : ∀ field ∈ parent.fields.take index, ¬field.RefersTo schema child)
    : parent.Sees schema child cardinality ↔ key.Bears cardinality := by
  have isFirst : IsFirst (Field.RefersTo schema child) parent.fields key := by
    refine ⟨parent.fields.take index, parent.fields.drop (index + 1), ?_, refersTo, first⟩
    obtain ⟨inside, rfl⟩ := List.getElem?_eq_some_iff.mp isField
    rw [← List.drop_eq_getElem_cons inside, List.take_append_drop]
  constructor
  · intro sees
    cases sees with
    | back isFirst' bears => rwa [isFirst.unique isFirst']
    | unseen none => exact absurd refersTo (none key isFirst.mem)
  · exact fun bears => .back isFirst bears

/-- What the parent of a relation sees is what the reverse of its key bears: the first other field
of the parent that refers back, or nothing if there is none. Only a key of a model to itself that
stands in front of all other fields which refer back is seen instead of them.
-/
theorem parentCardinality_eq_iff_reverseBears (schema : Schema) (position index : Nat)
    (child : Model) (key : Field) (relation : Relation)
    (hasField : schema.HasField position index child key)
    (related : (Lookup.ofSchema schema).relation? child key = some relation)
    : ∃ target parent,
        schema.modelPosition? key.type.name = some target
        ∧ schema.models[target]? = some parent
        ∧ relation.parentTable = parent.tableName
        ∧ ∀ cardinality,
            relation.parentCardinality = cardinality
            ↔ Model.ReverseBears schema position index target child parent key cardinality := by
  obtain ⟨fields, references, parent, holds, isOf⟩ := Lookup.relation?_eq_some_iff.mp related
  obtain ⟨target, isTarget, isParent⟩ := Schema.modelPosition?_of_isFirst holds.target
  refine ⟨target, parent, isTarget, isParent, isOf.parentTable, fun cardinality => ?_⟩
  have seen : relation.parentCardinality = cardinality
      ↔ parent.Sees schema child cardinality := by
    rw [← Lookup.parentCardinality_eq_iff,
      Lookup.parentCardinality_eq_iff.mpr isOf.parentCardinality]
  rw [seen]
  by_cases own : target = position
  · -- the child is its own parent, so the key itself refers back
    obtain rfl : parent = child :=
      Option.some.inj (isParent.symm.trans (own ▸ hasField.isModel))
    have refersTo : key.RefersTo schema parent := ⟨holds.isObject, holds.target.holds.symm⟩
    by_cases earlier : ∃ field ∈ parent.fields.take index, field.RefersTo schema parent
    · rw [← Model.sees_eraseField_iff earlier]
      constructor
      · exact .sibling own earlier
      · intro reverse
        cases reverse with
        | elsewhere apart => exact absurd own apart
        | sibling _ _ sees => exact sees
        | itself _ first =>
            obtain ⟨field, isEarlier, isReverse⟩ := earlier
            exact absurd isReverse (first field isEarlier)
    · have first : ∀ field ∈ parent.fields.take index, ¬field.RefersTo schema parent :=
        fun field isEarlier isReverse => earlier ⟨field, isEarlier, isReverse⟩
      rw [Model.sees_iff_bears hasField.isField refersTo first]
      constructor
      · exact .itself own first
      · intro reverse
        cases reverse with
        | elsewhere apart => exact absurd own apart
        | sibling _ earlier' => exact absurd earlier' earlier
        | itself _ _ bears => exact bears
  · constructor
    · exact .elsewhere own
    · intro reverse
      cases reverse with
      | elsewhere _ sees => exact sees
      | sibling own' | itself own' => exact absurd own' own

/-- The children of a node, declared in front of the key to its parent, are the reverse of it. -/
theorem parentCardinality_of_children_first
    : let children := { Field.unplaced "children" (.object "Node") with isList := true }
      let parent := (Field.unplaced "parent" (.object "Node")).addAttribute
        (.unplaced "relation"
          [.named "fields" (.list ["parentId"]), .named "references" (.list ["id"])])
      let node := ((Model.unplaced "Node").addField children).addField parent
      let schema : Schema := ⟨[node], []⟩
      let relation : Relation :=
        ⟨"node", ["parent_id"], .exactlyOne, "node", ["id"], .zeroOrMore,
          "FOREIGN KEY (parent_id) REFERENCES node(id)"⟩
      schema.HasField 0 1 node parent
      ∧ (Lookup.ofSchema schema).relation? node parent = some relation
      ∧ ∃ target other,
          schema.modelPosition? "Node" = some target
          ∧ schema.models[target]? = some other
          ∧ relation.parentTable = other.tableName
          ∧ ∀ cardinality,
              relation.parentCardinality = cardinality
              ↔ Model.ReverseBears schema 0 1 target node other parent cardinality := by
  intro children parent node schema relation
  have hasField : schema.HasField 0 1 node parent := ⟨rfl, rfl⟩
  have related : (Lookup.ofSchema schema).relation? node parent = some relation := by
    decide +kernel
  exact ⟨hasField, related,
    parentCardinality_eq_iff_reverseBears schema 0 1 node parent relation hasField related⟩

/-- With the key in front it is the key that is seen, though the only other field that refers
back is a list.
-/
theorem parentCardinality_of_key_first
    : let text := "model Node { up Node? @relation(fields: [a], references: [b]) down Node[] }"
      (Schema.ofText false text).toOption.map (fun schema =>
          (schema.relations (.ofSchema schema)).map Relation.parentCardinality)
          = some [.zeroOrOne]
        ∧ (Schema.ofText false text).toOption.map (fun schema =>
            schema.models.map fun node =>
              ((node.eraseField 0).fields.map (·.name.name),
                (Lookup.ofSchema schema).parentCardinality node (node.eraseField 0)))
          = some [(["down"], .zeroOrMore)] := by
  decide +kernel

end SchemaDoc
