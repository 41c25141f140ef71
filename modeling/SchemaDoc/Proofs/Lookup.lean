import SchemaDoc.Schema.Lookup

/-! The index of a schema finds what a search through the schema finds.
A name that is declared several times leads to its first declaration on both ways.
-/

namespace SchemaDoc

theorem Directory.get?_foldl_insertIfNew {α : Type} (name : α → String) (key : String)
    (xs : List α) (directory : Directory α)
    : (xs.foldl (fun directory x => directory.insertIfNew (name x) x) directory).get? key
      = (directory.get? key).or (xs.find? (name · == key)) := by
  induction xs generalizing directory with
  | nil => simp
  | cons x xs ih =>
      rw [List.foldl_cons, ih, get?_insertIfNew, List.find?_cons, Option.or_assoc]
      by_cases equal : name x = key
      · simp [equal]
      · have differ : (name x == key) = false := beq_false_of_ne equal
        simp [equal, differ]

/-- A directory of values holds the first one of each name. -/
theorem Directory.get?_ofList {α : Type} (name : α → String) (xs : List α) (key : String)
    : (ofList name xs).get? key = xs.find? (name · == key) := by
  rw [ofList, get?_foldl_insertIfNew, get?_empty, Option.none_or]

namespace Lookup

theorem model?_ofSchema (schema : Schema) (name : String)
    : (ofSchema schema).model? name = schema.model? name :=
  Directory.get?_ofList _ schema.models name

theorem isEnum_ofSchema (schema : Schema) (name : String)
    : (ofSchema schema).isEnum name = schema.isEnum name :=
  congrArg Option.isSome (Directory.get?_ofList _ schema.enums name)

end Lookup

end SchemaDoc
