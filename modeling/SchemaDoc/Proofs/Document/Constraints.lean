import SchemaDoc.Proofs.Document.Alike
import SchemaDoc.Proofs.Document.Columns
import SchemaDoc.Proofs.Document.Keys

/-! The constraints and indexes of a table, said from the attributes of its model.
A primary key comes from one attribute of the model or from the marks of its fields, and it stands
in front. Everything else has one source, an attribute on a field or on the model, and keeps the
order of the sources.
-/

namespace SchemaDoc

-----------------------------------------------------------------------------------------
-- Sources
-----------------------------------------------------------------------------------------

/-- An attribute has no list of fields, or its list is empty. -/
def Attribute.ListsNone (a : Attribute) : Prop := ∀ names, a.ListsFields names → names = []

/-- An attribute lists columns of a model: those that the fields in its list stand for, one for
one, and there is at least one of them.
-/
def Model.ListsColumns (model : Model) (a : Attribute) (columns : List String) : Prop :=
  ∃ names, a.ListsFields names ∧ names ≠ [] ∧ List.Forall₂ model.ColumnNamed names columns

/-- The first argument with a name holds a text. -/
def Attribute.HoldsText (a : Attribute) (key text : String) : Prop :=
  ∃ argument,
    IsFirst (fun argument => argument.name.map Ident.name = some key) a.arguments argument
    ∧ argument.value = .string text

/-- An attribute gives a name: the text under `name`, or the one under `map` when it has no argument
`name` at all.
-/
inductive Attribute.GivesName (a : Attribute) (text : String) : Prop
  | name (holds : a.HoldsText "name" text)
  | map (unnamed : ∀ argument ∈ a.arguments, argument.name.map Ident.name ≠ some "name")
    (holds : a.HoldsText "map" text)

theorem Model.listedColumns?_eq_some_iff_listsColumns {model : Model} {a : Attribute}
    {columns : List String}
    : model.listedColumns? a = some columns ↔ model.ListsColumns a columns := by
  rw [listedColumns?_eq_some_iff]
  constructor
  · intro listed
    obtain ⟨nonempty, names, lists, rfl⟩ := listed
    exact ⟨names, lists, mt List.map_eq_nil_iff.mpr nonempty, map_columnOf_eq_iff.mp rfl⟩
  · intro lists
    obtain ⟨names, lists, nonempty, named⟩ := lists
    obtain rfl := map_columnOf_eq_iff.mpr named
    exact ⟨mt List.map_eq_nil_iff.mp nonempty, names, lists, rfl⟩

theorem Model.ListsColumns.ne_nil {model : Model} {a : Attribute} {columns : List String}
    (lists : model.ListsColumns a columns)
    : columns ≠ [] := by
  obtain ⟨names, -, nonempty, named⟩ := lists
  rintro rfl
  exact nonempty (List.forall₂_nil_right_iff.mp named)

theorem Model.listedColumns?_eq_none_iff {model : Model} {a : Attribute}
    : model.listedColumns? a = none ↔ a.ListsNone := by
  rw [Option.eq_none_iff_forall_ne_some]
  constructor
  · intro notListed names lists
    by_contra nonempty
    exact notListed (names.map model.columnOf)
      (listedColumns?_eq_some_iff.mpr
        ⟨mt List.map_eq_nil_iff.mp nonempty, names, lists, rfl⟩)
  · intro none columns listed
    obtain ⟨nonempty, names, lists, rfl⟩ := listedColumns?_eq_some_iff.mp listed
    rw [none names lists] at nonempty
    exact nonempty rfl

theorem Attribute.namedText_eq_some_iff {a : Attribute} {key text : String}
    : (a.named? key).bind Value.string? = some text ↔ a.HoldsText key text := by
  simp only [HoldsText, named?, Option.bind_map, Option.bind_eq_some_iff,
    find?_eq_some_iff_isFirst fun _ => beq_iff_eq, Function.comp_apply,
    Value.string?_eq_some_iff]

/-- An argument `name` hides the argument `map`, whatever it holds. -/
theorem Attribute.indexName?_eq_some_iff {a : Attribute} {text : String}
    : a.indexName? = some text ↔ a.GivesName text := by
  rw [indexName?]
  cases named : a.named? "name" with
  | some value =>
      rw [Option.some_or, ← named, namedText_eq_some_iff]
      constructor
      · exact .name
      · intro gives
        cases gives with
        | name holds => exact holds
        | map unnamed _ => simp [named?_eq_none_iff.mpr unnamed] at named
  | none =>
      rw [Option.none_or, namedText_eq_some_iff]
      constructor
      · exact .map (named?_eq_none_iff.mp named)
      · intro gives
        cases gives with
        | name holds =>
            rw [← namedText_eq_some_iff, named] at holds
            exact absurd holds (Option.some_ne_none text).symm
        | map _ holds => exact holds

-----------------------------------------------------------------------------------------
-- Entries and their sources
-----------------------------------------------------------------------------------------

namespace Model

variable {β : Type}

/-- Each field with a mark makes an entry of its column, in order, and no other field makes one. -/
def EntriesOfMarks (model : Model) (mark : String) (makes : String → β → Prop)
    (entries : List β)
    : Prop :=
  Picks
    (fun field entry =>
      field.IsMarked mark
      ∧ ∃ column, Naming.Calls field.name.name field.attributes column ∧ makes column entry)
    (fun field => ¬field.IsMarked mark)
    model.fields entries

/-- Each attribute of some name that lists columns makes an entry of them, in order, and no other
attribute makes one.
-/
def EntriesOfLists (model : Model) (name : String) (makes : Attribute → List String → β → Prop)
    (entries : List β)
    : Prop :=
  Picks
    (fun a entry =>
      a.name.name = name ∧ ∃ columns, model.ListsColumns a columns ∧ makes a columns entry)
    (fun a => a.name.name = name → a.ListsNone)
    model.attributes entries

theorem entriesOfMarks_map_filter {mark : String} {makes : String → β → Prop}
    {test : Field → Bool} {make : String → β}
    (tests : ∀ {field}, test field = true ↔ field.IsMarked mark)
    (made : ∀ column, makes column (make column)) (model : Model)
    : model.EntriesOfMarks mark makes
        ((model.fields.filter test).map fun field => make field.columnName) := by
  refine picks_map_filter (fun field isMarked => ?_) (fun field notMarked => ?_) model.fields
  · exact ⟨tests.mp isMarked, field.columnName, Naming.calls_external _ _, made _⟩
  · exact mt tests.mpr notMarked

theorem entriesOfLists_filterMap {name : String} {makes : Attribute → List String → β → Prop}
    {make : Attribute → List String → β} (made : ∀ a columns, makes a columns (make a columns))
    (model : Model)
    : model.EntriesOfLists name makes
        ((model.attributesNamed name).filterMap
          fun a => (model.listedColumns? a).map (make a)) := by
  rw [attributesNamed, List.filterMap_filter]
  refine picks_filterMap (fun a entry isMade => ?_) (fun a notMade named => ?_) model.attributes
  · rw [Option.ite_none_right_eq_some, Option.map_eq_some_iff] at isMade
    obtain ⟨named, columns, listed, rfl⟩ := isMade
    exact ⟨beq_iff_eq.mp named, columns, listedColumns?_eq_some_iff_listsColumns.mp listed,
      made a columns⟩
  · have isNamed : a.isNamed name = true := beq_iff_eq.mpr named
    rw [if_pos isNamed, Option.map_eq_none_iff] at notMade
    exact listedColumns?_eq_none_iff.mp notMade

end Model

-----------------------------------------------------------------------------------------
-- Primary keys
-----------------------------------------------------------------------------------------

/-- A constraint demands something of columns of a table, and its definition lists them. -/
structure Constraint.Demands (kind : ConstraintKind) (table : String) (columns : List String)
    (constraint : Constraint)
    : Prop where
  kind : constraint.kind = kind
  table : constraint.table = table
  columns : constraint.columns = columns
  definition
    : constraint.definition
      = constraint.kind.keyword ++ " (" ++ ", ".intercalate constraint.columns ++ ")"

theorem Constraint.demands_primaryKey (table : String) (columns : List String)
    : Demands .primaryKey table columns (primaryKey table columns) :=
  ⟨rfl, rfl, rfl, rfl⟩

theorem Constraint.demands_unique (table : String) (columns : List String)
    : Demands .unique table columns (unique table columns) :=
  ⟨rfl, rfl, rfl, rfl⟩

namespace Model

/-- A model has a primary key: its first `@@id` lists a field, or a field is marked `@id`. -/
def HasKey (model : Model) : Prop :=
  (∃ a names,
    IsFirst (·.name.name = "id") model.attributes a ∧ a.ListsFields names ∧ names ≠ [])
  ∨ ∃ field ∈ model.fields, field.IsMarked "id"

/-- The primary keys of a table, of which there is one at most. The first `@@id` decides its
columns when it lists a field, and otherwise the fields marked `@id` do.
-/
inductive IsKeyedBy (model : Model) (table : String) : List Constraint → Prop
  | listed {a columns key} (first : IsFirst (·.name.name = "id") model.attributes a)
    (lists : model.ListsColumns a columns) (demands : key.Demands .primaryKey table columns)
    : model.IsKeyedBy table [key]
  | marked {columns key}
    (unlisted : ∀ a, IsFirst (·.name.name = "id") model.attributes a → a.ListsNone)
    (marks : model.EntriesOfMarks "id" Eq columns) (nonempty : columns ≠ [])
    (demands : key.Demands .primaryKey table columns)
    : model.IsKeyedBy table [key]
  | keyless (unlisted : ∀ a, IsFirst (·.name.name = "id") model.attributes a → a.ListsNone)
    (unmarked : ∀ field ∈ model.fields, ¬field.IsMarked "id")
    : model.IsKeyedBy table []

theorem isKeyedBy_keyColumns? (model : Model) (table : String)
    : model.IsKeyedBy table (model.keyColumns?.map (.primaryKey table)).toList := by
  rw [keyColumns?]
  cases listed : (Attribute.find? model.attributes "id").bind model.listedColumns? with
  | some columns =>
      obtain ⟨a, found, lists⟩ := Option.bind_eq_some_iff.mp listed
      exact .listed (Attribute.find?_eq_some_iff.mp found)
        (listedColumns?_eq_some_iff_listsColumns.mp lists) (Constraint.demands_primaryKey ..)
  | none =>
      have unlisted a (first : IsFirst (·.name.name = "id") model.attributes a) : a.ListsNone :=
        fun names => listedKey_eq_none_iff.mp listed a names first
      rw [Option.none_or]
      cases marked : (some (model.idFields.map Field.columnName)).filter (· ≠ []) with
      | some columns =>
          obtain ⟨nonempty, rfl⟩ := markedKey_eq_some_iff.mp marked
          have marks : model.EntriesOfMarks "id" Eq (model.idFields.map Field.columnName) :=
            entriesOfMarks_map_filter Attribute.occurs_iff (fun _ => rfl) model
          exact .marked unlisted marks nonempty (Constraint.demands_primaryKey ..)
      | none =>
          have noneMarked : model.idFields = [] := by simpa using marked
          refine .keyless unlisted fun field isField isMarked => ?_
          have isId : field.isId = true := Attribute.occurs_iff.mpr isMarked
          exact List.filter_eq_nil_iff.mp noneMarked field isField isId

variable {model : Model} {table : String} {keys : List Constraint}

theorem IsKeyedBy.eq_nil_or (keyed : model.IsKeyedBy table keys)
    : keys = [] ∨ ∃ key, keys = [key] ∧ key.kind = .primaryKey := by
  cases keyed with
  | listed _ _ demands => exact .inr ⟨_, rfl, demands.kind⟩
  | marked _ _ _ demands => exact .inr ⟨_, rfl, demands.kind⟩
  | keyless => exact .inl rfl

theorem IsKeyedBy.ne_nil_iff (keyed : model.IsKeyedBy table keys)
    : keys ≠ [] ↔ model.HasKey := by
  cases keyed with
  | listed first lists _ =>
      obtain ⟨names, lists, nonempty, -⟩ := lists
      exact iff_of_true (List.cons_ne_nil _ _) (.inl ⟨_, names, first, lists, nonempty⟩)
  | marked _ marks nonempty _ =>
      obtain ⟨column, isMember⟩ := List.exists_mem_of_ne_nil _ nonempty
      obtain ⟨field, isField, isMarked, -⟩ := Picks.exists_of_mem marks isMember
      exact iff_of_true (List.cons_ne_nil _ _) (.inr ⟨field, isField, isMarked⟩)
  | keyless unlisted unmarked =>
      refine iff_of_false (not_not_intro rfl) ?_
      rintro (⟨a, names, first, lists, nonempty⟩ | ⟨field, isField, isMarked⟩)
      · exact nonempty (unlisted a first names lists)
      · exact unmarked field isField isMarked

theorem IsKeyedBy.exists_primaryKey_iff {others : List Constraint}
    (keyed : model.IsKeyedBy table keys) (distinct : ∀ other ∈ others, other.kind = .unique)
    : (∃ key ∈ keys ++ others, key.kind = .primaryKey) ↔ keys ≠ [] := by
  constructor
  · intro found noKeys
    obtain ⟨key, isMember, isPrimary⟩ := found
    rw [noKeys, List.nil_append] at isMember
    exact ConstraintKind.noConfusion (isPrimary.symm.trans (distinct key isMember))
  · intro nonempty
    obtain noKeys | ⟨key, rfl, isPrimary⟩ := keyed.eq_nil_or
    · exact absurd noKeys nonempty
    · exact ⟨key, List.mem_append_left others (List.mem_singleton_self key), isPrimary⟩

/-- Nothing stands in front of a primary key, and there is no other one behind it. -/
theorem IsKeyedBy.primaryKey_first {others front back : List Constraint} {key : Constraint}
    (keyed : model.IsKeyedBy table keys) (distinct : ∀ other ∈ others, other.kind = .unique)
    (split : keys ++ others = front ++ key :: back) (isPrimary : key.kind = .primaryKey)
    : front = [] ∧ ∀ other ∈ back, other.kind = .unique := by
  have notOther : key ∉ others := fun isMember =>
    ConstraintKind.noConfusion (isPrimary.symm.trans (distinct key isMember))
  obtain rfl | ⟨only, rfl, -⟩ := keyed.eq_nil_or
  · rw [List.nil_append] at split
    exact absurd (split ▸ List.mem_append_right front List.mem_cons_self) notOther
  · rw [List.singleton_append] at split
    cases front with
    | nil =>
        obtain ⟨-, rfl⟩ := List.cons.inj split
        exact ⟨rfl, distinct⟩
    | cons first front =>
        obtain ⟨-, rfl⟩ := List.cons.inj split
        exact absurd (List.mem_append_right front List.mem_cons_self) notOther

end Model

-----------------------------------------------------------------------------------------
-- Constraints and indexes of a table
-----------------------------------------------------------------------------------------

/-- An attribute calls an index: by the name it gives, or else by a generated one. -/
inductive Attribute.Calls (a : Attribute) (generated : String) : String → Prop
  | given {text} (gives : a.GivesName text) : a.Calls generated text
  | generated (notGiven : ∀ text, ¬a.GivesName text) : a.Calls generated generated

theorem Attribute.Calls.eq_generated {a : Attribute} {generated name : String}
    (calls : a.Calls generated name) (notGiven : ∀ text, ¬a.GivesName text)
    : name = generated := by
  cases calls with
  | given gives => exact absurd gives (notGiven _)
  | generated => rfl

/-- An index covers the columns that an attribute lists, and its definition lists them. -/
structure TableIndex.Covers (table : String) (a : Attribute) (columns : List String)
    (index : TableIndex)
    : Prop where
  name : a.Calls (table ++ "_" ++ "_".intercalate columns ++ "_idx") index.name
  table : index.table = table
  columns : index.columns = columns
  definition
    : index.definition
      = "CREATE INDEX " ++ index.name ++ " ON " ++ index.table ++ " ("
          ++ ", ".intercalate index.columns ++ ")"

theorem Attribute.calls_indexName? (a : Attribute) (generated : String)
    : a.Calls generated (a.indexName?.getD generated) := by
  cases named : a.indexName? with
  | some text => exact .given (indexName?_eq_some_iff.mp named)
  | none =>
      refine .generated fun text gives => ?_
      exact Option.eq_none_iff_forall_ne_some.mp named text (indexName?_eq_some_iff.mpr gives)

theorem TableIndex.covers_ofColumns (table : String) (a : Attribute) (columns : List String)
    : Covers table a columns (ofColumns table columns a.indexName?) :=
  ⟨a.calls_indexName? _, rfl, rfl, rfl⟩

/-- A table holds the constraints and indexes of a model. A primary key stands in front of the
other constraints, first those of fields marked `@unique` and then those that `@@unique` lists.
-/
structure Model.IsConstrainedBy (model : Model) (table : Table) : Prop where
  constraints
    : ∃ keys marked listed,
        table.constraints = keys ++ (marked ++ listed)
        ∧ model.IsKeyedBy table.name keys
        ∧ model.EntriesOfMarks "unique"
            (fun column => Constraint.Demands .unique table.name [column]) marked
        ∧ model.EntriesOfLists "unique"
            (fun _ => Constraint.Demands .unique table.name) listed
  hasKey : (∃ key ∈ table.constraints, key.kind = .primaryKey) ↔ model.HasKey
  keyFirst
    : ∀ front key back,
        table.constraints = front ++ key :: back
        → key.kind = .primaryKey
        → front = [] ∧ ∀ other ∈ back, other.kind = .unique
  indexes : model.EntriesOfLists "index" (TableIndex.Covers table.name) table.indexes

namespace Model

variable {model : Model} {table : String} {entries : List Constraint}

theorem EntriesOfMarks.kind_eq {kind : ConstraintKind} {mark : String}
    (entriesOf
      : model.EntriesOfMarks mark (fun column => Constraint.Demands kind table [column]) entries)
    : ∀ entry ∈ entries, entry.kind = kind := by
  intro entry isMember
  obtain ⟨_, -, -, _, -, demands⟩ := Picks.exists_of_mem entriesOf isMember
  exact demands.kind

theorem EntriesOfLists.kind_eq {kind : ConstraintKind} {name : String}
    (entriesOf
      : model.EntriesOfLists name (fun _ => Constraint.Demands kind table) entries)
    : ∀ entry ∈ entries, entry.kind = kind := by
  intro entry isMember
  obtain ⟨_, -, -, _, -, demands⟩ := Picks.exists_of_mem entriesOf isMember
  exact demands.kind

theorem isConstrainedBy_toTable (model : Model) (lookup : Lookup)
    : model.IsConstrainedBy (model.toTable lookup) := by
  have keyed := model.isKeyedBy_keyColumns? model.tableName
  have marked
      : model.EntriesOfMarks "unique"
          (fun column => Constraint.Demands .unique model.tableName [column])
          ((model.fields.filter Field.isUnique).map
            fun field => Constraint.unique model.tableName [field.columnName]) :=
    entriesOfMarks_map_filter Attribute.occurs_iff
      (fun column => Constraint.demands_unique model.tableName [column]) model
  have listed
      : model.EntriesOfLists "unique" (fun _ => Constraint.Demands .unique model.tableName)
          (((model.attributesNamed "unique").filterMap model.listedColumns?).map
            (Constraint.unique model.tableName)) := by
    rw [List.map_filterMap]
    exact entriesOfLists_filterMap (fun _ => Constraint.demands_unique model.tableName) model
  have split : (model.toTable lookup).constraints = _ ++ (_ ++ _) := List.append_assoc ..
  have distinct := List.forall_mem_append.mpr ⟨marked.kind_eq, listed.kind_eq⟩
  exact {
    constraints := ⟨_, _, _, split, keyed, marked, listed⟩
    hasKey := by
      rw [split, keyed.exists_primaryKey_iff distinct]
      exact keyed.ne_nil_iff
    keyFirst := by
      intro front key back isSplit
      rw [split] at isSplit
      exact keyed.primaryKey_first distinct isSplit
    indexes :=
      entriesOfLists_filterMap (TableIndex.covers_ofColumns model.tableName) model
  }

end Model

/-- Every table of a document holds the constraints and indexes of its model, and no others. -/
theorem tables_constrain_models (heading : Heading) (schema : Schema)
    : List.Forall₂ Model.IsConstrainedBy schema.models
        (Document.ofSchema heading schema).tables :=
  forall₂_map_self fun model _ => model.isConstrainedBy_toTable (.ofSchema schema)

end SchemaDoc
