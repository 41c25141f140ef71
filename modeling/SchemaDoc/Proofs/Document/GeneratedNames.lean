import SchemaDoc.Proofs.Document.Constraints

/-! Which of the generated names of constraints and indexes are the same.
Such a name joins the names of columns with underscores, and a column may have underscores in its
own name. So a generated name shows the words of its columns, but not where a column ends.
-/

namespace SchemaDoc

-----------------------------------------------------------------------------------------
-- Words of columns
-----------------------------------------------------------------------------------------

namespace Naming

/-- The words of columns: what their names are cut into at each underscore. -/
def words (columns : List String) : List (List Char) :=
  columns.flatMap fun column => column.toList.splitOn '_'

variable {columns columns' : List String}

theorem splitOn_intercalate (nonempty : columns ≠ [])
    : ("_".intercalate columns).toList.splitOn '_' = words columns := by
  induction columns with
  | nil => exact absurd rfl nonempty
  | cons column columns ih =>
      cases columns with
      | nil => simp [words]
      | cons next columns =>
          have joined
              : ("_".intercalate (column :: next :: columns)).toList
                = column.toList ++ '_' :: ("_".intercalate (next :: columns)).toList := by
            simp [String.intercalate_cons_cons]
          rw [joined, List.splitOn_append_cons_self, ih (List.cons_ne_nil _ _)]
          rfl

/-- Joined names agree when the columns have the same words in the same order. -/
theorem intercalate_eq_iff (nonempty : columns ≠ []) (nonempty' : columns' ≠ [])
    : "_".intercalate columns = "_".intercalate columns' ↔ words columns = words columns' := by
  rw [← splitOn_intercalate nonempty, ← splitOn_intercalate nonempty']
  constructor
  · intro same
    rw [same]
  · intro same
    have joined := congrArg (['_'].intercalate ·) same
    simpa only [List.intercalate_splitOn, String.toList_inj] using joined

/-- A column without an underscore is one word. -/
theorem words_eq_map (plain : ∀ column ∈ columns, '_' ∉ column.toList)
    : words columns = columns.map String.toList := by
  induction columns with
  | nil => rfl
  | cons column columns ih =>
      obtain ⟨noUnderscore, plain⟩ := List.forall_mem_cons.mp plain
      have oneWord : column.toList.splitOn '_' = [column.toList] :=
        List.splitOn_eq_singleton noUnderscore
      rw [words, List.flatMap_cons, oneWord, ← words, ih plain]
      rfl

/-- Columns without underscores are their words. -/
theorem eq_of_words_eq (plain : ∀ column ∈ columns, '_' ∉ column.toList)
    (plain' : ∀ column ∈ columns', '_' ∉ column.toList) (same : words columns = words columns')
    : columns = columns' := by
  rw [words_eq_map plain, words_eq_map plain'] at same
  exact List.map_injective_iff.mpr (fun _ _ => String.toList_inj.mp) same

/-- Names that are generated for columns tell apart columns with other words, so they tell apart all
columns that have no underscores.
-/
structure FollowWords (name name' : String) (columns columns' : List String) : Prop where
  eq_iff : name = name' ↔ words columns = words columns'
  plain
    : columns ≠ columns'
      → (∀ column ∈ columns ++ columns', '_' ∉ column.toList)
      → name ≠ name'

theorem followWords_joined (table suffix : String) (nonempty : columns ≠ [])
    (nonempty' : columns' ≠ [])
    : FollowWords (table ++ "_" ++ "_".intercalate columns ++ suffix)
        (table ++ "_" ++ "_".intercalate columns' ++ suffix) columns columns' := by
  have eq_iff
      : table ++ "_" ++ "_".intercalate columns ++ suffix
          = table ++ "_" ++ "_".intercalate columns' ++ suffix
        ↔ words columns = words columns' := by
    rw [String.append_left_inj, String.append_right_inj, intercalate_eq_iff nonempty nonempty']
  refine ⟨eq_iff, fun differ plain same => differ ?_⟩
  rw [List.forall_mem_append] at plain
  exact eq_of_words_eq plain.1 plain.2 (eq_iff.mp same)

end Naming

-----------------------------------------------------------------------------------------
-- Constraints and indexes
-----------------------------------------------------------------------------------------

/-- A table has an index of a model that no attribute gives a name to. -/
structure Model.HasUnnamedIndex (model : Model) (table : Table) (index : TableIndex) : Prop where
  isMember : index ∈ table.indexes
  source
    : ∃ a ∈ model.attributes,
        a.name.name = "index"
        ∧ (∀ text, ¬a.GivesName text)
        ∧ ∃ columns, model.ListsColumns a columns ∧ index.Covers table.name a columns

theorem Model.exists_columns_of_unique {model : Model} {constraint : Constraint}
    (isMember : constraint ∈ model.constraints) (isUnique : constraint.kind = .unique)
    : ∃ columns, columns ≠ [] ∧ constraint = .unique model.tableName columns := by
  rcases mem_constraints_iff.mp isMember with
    ⟨columns, -, rfl⟩ | ⟨field, -, -, rfl⟩ | ⟨a, -, -, columns, listed, rfl⟩
  · exact ConstraintKind.noConfusion isUnique
  · exact ⟨_, List.cons_ne_nil _ _, rfl⟩
  · exact ⟨columns, (listedColumns?_eq_some_iff.mp listed).1, rfl⟩

theorem Model.HasUnnamedIndex.name_eq {model : Model} {table : Table} {index : TableIndex}
    (unnamed : model.HasUnnamedIndex table index)
    : index.columns ≠ []
      ∧ index.name = table.name ++ "_" ++ "_".intercalate index.columns ++ "_idx" := by
  obtain ⟨a, -, -, noName, columns, lists, covers⟩ := unnamed.source
  rw [covers.columns]
  exact ⟨lists.ne_nil, covers.name.eq_generated noName⟩

/-- Of two unique constraints of a table, and of two of its indexes that are not given a name, the
names agree exactly when their columns have the same words.
-/
theorem generated_names_follow_words (heading : Heading) (schema : Schema) (model : Model)
    (table : Table) (hasTable : (Document.ofSchema heading schema).HasTable schema model table)
    : (∀ left ∈ table.constraints, ∀ right ∈ table.constraints,
        left.kind = .unique
        → right.kind = .unique
        → Naming.FollowWords left.name right.name left.columns right.columns)
      ∧ ∀ left right,
          model.HasUnnamedIndex table left
          → model.HasUnnamedIndex table right
          → Naming.FollowWords left.name right.name left.columns right.columns := by
  obtain ⟨-, rfl⟩ := Document.hasTable_ofSchema_iff.mp hasTable
  constructor
  · intro left isLeft right isRight leftUnique rightUnique
    obtain ⟨columns, nonempty, rfl⟩ := Model.exists_columns_of_unique isLeft leftUnique
    obtain ⟨columns', nonempty', rfl⟩ := Model.exists_columns_of_unique isRight rightUnique
    exact Naming.followWords_joined model.tableName "_unique" nonempty nonempty'
  · intro left right leftUnnamed rightUnnamed
    obtain ⟨nonempty, leftName⟩ := leftUnnamed.name_eq
    obtain ⟨nonempty', rightName⟩ := rightUnnamed.name_eq
    rw [leftName, rightName]
    exact Naming.followWords_joined _ "_idx" nonempty nonempty'

/-- Columns `a` and `b` have a constraint and an index with other names than those of `ab`. -/
theorem names_of_plain_columns
    : let listing (kind : String) (names : List String) : Attribute :=
        .unplaced kind [.positional (.list names)]
      let pair : Model := (Model.unplaced "T").addAttribute (listing "unique" ["a", "b"])
      let both : Model := pair.addAttribute (listing "unique" ["ab"])
      let indexed : Model := both.addAttribute (listing "index" ["a", "b"])
      let model : Model := indexed.addAttribute (listing "index" ["ab"])
      let schema : Schema := ⟨[model], []⟩
      let table := model.toTable (.ofSchema schema)
      (Document.ofSchema default schema).HasTable schema model table
      ∧ (∃ left ∈ table.constraints, ∃ right ∈ table.constraints,
          left.columns ≠ right.columns ∧ left.name ≠ right.name)
      ∧ ∃ left right,
          model.HasUnnamedIndex table left
          ∧ model.HasUnnamedIndex table right
          ∧ left.columns ≠ right.columns
          ∧ left.name ≠ right.name := by
  intro listing pair both indexed model schema table
  have hasTable : (Document.ofSchema default schema).HasTable schema model table :=
    Document.hasTable_ofSchema_iff.mpr ⟨List.mem_singleton_self model, rfl⟩
  have unnamed (names : List String) (isMember : listing "index" names ∈ model.attributes)
      (listed : model.listedColumns? (listing "index" names) = some names)
      : model.HasUnnamedIndex table (.ofColumns model.tableName names none) := by
    refine ⟨Model.mem_indexes_iff.mpr ⟨_, isMember, rfl, names, listed, rfl⟩, ?_⟩
    have noName (text : String) (gives : (listing "index" names).GivesName text) : False :=
      Option.some_ne_none text (Attribute.indexName?_eq_some_iff.mpr gives).symm
    exact ⟨_, isMember, rfl, noName, names,
      Model.listedColumns?_eq_some_iff_listsColumns.mp listed,
      TableIndex.covers_ofColumns model.tableName (listing "index" names) names⟩
  have unnamedPair := unnamed ["a", "b"] (by decide) (by decide)
  have unnamedOne := unnamed ["ab"] (by decide) (by decide)
  have differ : ["a", "b"] ≠ ["ab"] := by decide
  have plain : ∀ column ∈ ["a", "b"] ++ ["ab"], '_' ∉ column.toList := by decide
  obtain ⟨constraints, indexes⟩ :=
    generated_names_follow_words default schema model table hasTable
  refine ⟨hasTable, ?_, _, _, unnamedPair, unnamedOne, differ, ?_⟩
  · have isPair : Constraint.unique model.tableName ["a", "b"] ∈ table.constraints := by decide
    have isOne : Constraint.unique model.tableName ["ab"] ∈ table.constraints := by decide
    exact ⟨_, isPair, _, isOne, differ,
      (constraints _ isPair _ isOne rfl rfl).plain differ plain⟩
  · exact (indexes _ _ unnamedPair unnamedOne).plain differ plain

/-- A column that another two make up takes their names, in constraints and in indexes. -/
theorem same_name_of_other_columns
    : let text :=
        "model A { a Int b Int a_b Int @unique @@unique([a, b]) @@index([a, b]) @@index([a_b]) }"
      (Schema.ofText false text).toOption.map (fun schema =>
          (Document.ofSchema default schema).tables.map fun table =>
            (table.uniqueConstraints.map fun constraint => (constraint.name, constraint.columns),
              table.indexes.map fun index => (index.name, index.columns)))
        = some [([("a_a_b_unique", ["a_b"]), ("a_a_b_unique", ["a", "b"])],
            [("a_a_b_idx", ["a", "b"]), ("a_a_b_idx", ["a_b"])])] := by
  decide +kernel

end SchemaDoc
