import Mathlib.Data.List.Find
import SchemaDoc.Schema.Basic

/-! Attributes that are removed or put in another order, and what a search for a name still finds.
Which names are searched for depends on what the attributes stand at. Of some of these
names only the first attribute is looked at.
-/

namespace SchemaDoc

/-- What attributes can stand at. -/
inductive Holder where
  | field
  | model
  | enum
  | value
  deriving DecidableEq, Repr

namespace Holder

/-- The names of attributes that are looked at. -/
def names : Holder → List String
  | field => ["id", "unique", "default", "map", "relation"]
  | model => ["map", "id", "unique", "index"]
  | enum | value => ["map"]

/-- The names of which the first attribute is looked at and no other one. -/
def firstNames : Holder → List String
  | field => ["default", "map", "relation"]
  | model => ["map", "id"]
  | enum | value => ["map"]

end Holder

namespace Attribute

-----------------------------------------------------------------------------------------
-- Edits
-----------------------------------------------------------------------------------------

/-- The attributes of some names. -/
def only (names : List String) (attributes : List Attribute) : List Attribute :=
  attributes.filter fun a => names.contains a.name.name

/-- The attributes without those that repeat one of some names. -/
def withoutRepeats (names : List String) : List Attribute → List Attribute
  | [] => []
  | a :: attributes =>
      a :: (withoutRepeats names attributes).filter fun b =>
        !(names.contains a.name.name && b.isNamed a.name.name)

/-- Attributes in another order: those of different names may change places. -/
inductive Reorders : List Attribute → List Attribute → Prop
  | nil : Reorders [] []
  | cons {as bs} (a : Attribute) (behind : Reorders as bs) : Reorders (a :: as) (a :: bs)
  | swap {a b : Attribute} (differ : a.name.name ≠ b.name.name) (attributes : List Attribute)
    : Reorders (b :: a :: attributes) (a :: b :: attributes)
  | trans {as bs cs} (front : Reorders as bs) (back : Reorders bs cs) : Reorders as cs

-----------------------------------------------------------------------------------------
-- What is still found
-----------------------------------------------------------------------------------------

/-- The attributes of a name are the same in the same order. -/
def SameAll (name : String) (as bs : List Attribute) : Prop :=
  as.filter (·.isNamed name) = bs.filter (·.isNamed name)

variable {name : String} {names : List String} {as bs : List Attribute}

theorem SameAll.find?_eq (same : SameAll name as bs) : find? as name = find? bs name := by
  rw [find?, find?, ← List.head?_filter, ← List.head?_filter, same]

theorem sameAll_only (isKept : name ∈ names) (attributes : List Attribute)
    : SameAll name (only names attributes) attributes := by
  rw [SameAll, only, List.filter_filter]
  refine List.filter_congr fun a _ => ?_
  by_cases isNamed : a.isNamed name
  · have sameName : a.name.name = name := beq_iff_eq.mp isNamed
    simp [isNamed, sameName, isKept]
  · simp [isNamed]

theorem Reorders.sameAll (reorders : Reorders as bs) (name : String) : SameAll name as bs := by
  induction reorders with
  | nil => rfl
  | cons a _ ih => rw [SameAll, List.filter_cons, List.filter_cons, ih]
  | @swap a b differ attributes =>
      have notBoth : ¬(a.isNamed name = true ∧ b.isNamed name = true) := fun both =>
        differ ((beq_iff_eq.mp both.1).trans (beq_iff_eq.mp both.2).symm)
      rw [SameAll, List.filter_cons, List.filter_cons, List.filter_cons, List.filter_cons]
      cases namedA : a.isNamed name with
      | false => simp
      | true =>
          cases namedB : b.isNamed name with
          | false => simp
          | true => exact absurd ⟨namedA, namedB⟩ notBoth
  | trans _ _ front back => exact front.trans back

/-- An attribute of another name is no repetition. -/
theorem isNamed_of_differ {a b : Attribute} (differ : a.name.name ≠ name) (isNamed : b.isNamed name)
    : b.isNamed a.name.name = false := by
  have sameName : b.name.name = name := beq_iff_eq.mp isNamed
  exact beq_false_of_ne (sameName.trans_ne differ.symm)

/-- A name that may repeat keeps all its attributes. -/
theorem sameAll_withoutRepeats (mayRepeat : name ∉ names) (attributes : List Attribute)
    : SameAll name (withoutRepeats names attributes) attributes := by
  induction attributes with
  | nil => rfl
  | cons a attributes ih =>
      have kept : ((withoutRepeats names attributes).filter fun b =>
            !(names.contains a.name.name && b.isNamed a.name.name)).filter (·.isNamed name)
          = attributes.filter (·.isNamed name) := by
        rw [← ih, List.filter_filter]
        refine List.filter_congr fun b _ => ?_
        by_cases differ : a.name.name = name
        · simp [differ, mayRepeat]
        · cases isNamed : b.isNamed name with
          | false => rfl
          | true => simp [isNamed_of_differ differ isNamed]
      rw [SameAll, withoutRepeats, List.filter_cons, List.filter_cons, kept]

/-- Every name keeps its first attribute. -/
theorem find?_withoutRepeats (names : List String) (attributes : List Attribute) (name : String)
    : find? (withoutRepeats names attributes) name = find? attributes name := by
  induction attributes with
  | nil => rfl
  | cons a attributes ih =>
      rw [withoutRepeats, find?, find?, List.find?_cons, List.find?_cons]
      cases isFirst : a.isNamed name with
      | true => rfl
      | false =>
          have differ : a.name.name ≠ name := fun same => by simp [isNamed, same] at isFirst
          rw [List.find?_filter, ← find?, ← ih, find?]
          refine List.find?_congr fun b _ => ?_
          cases isNamed : b.isNamed name with
          | false => simp
          | true => simp [isNamed_of_differ differ isNamed]

end Attribute

end SchemaDoc
