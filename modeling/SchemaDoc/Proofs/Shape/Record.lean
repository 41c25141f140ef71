import Mathlib.Data.List.Find
import Mathlib.Data.List.Nodup
import SchemaDoc.Shape.Record

/-! Slots of a record found by their names. When the names are distinct, a record that is given
all its parts by name is the one that is given them in the order of the slots.
-/

namespace SchemaDoc.Shape.RecordShape

variable {V ε α : Type} {shape : RecordShape V ε α}

/-- With distinct names, every slot is the one that its name finds. -/
theorem slot?_name (distinct : shape.slotNames.Nodup) {slot : Slot V ε α}
    (isSlot : slot ∈ shape.slots)
    : shape.slot? slot.name = some slot := by
  obtain ⟨before, after, split⟩ := List.append_of_mem isSlot
  rw [slotNames, split, List.map_append, List.map_cons, List.nodup_middle] at distinct
  refine List.find?_eq_some_iff_append.mpr ⟨by simp, before, after, split, fun other inFront => ?_⟩
  have differs : slot.name ≠ other.name := fun same =>
    (List.nodup_cons.mp distinct).1
      (same ▸ List.mem_append_left _ (List.mem_map_of_mem inFront))
  simpa using differs.symm

/-- No slot is found under a name that no slot has. -/
theorem slot?_eq_none {name : String} (unknown : name ∉ shape.slotNames)
    : shape.slot? name = none := by
  refine List.find?_eq_none.mpr fun slot isSlot isNamed => unknown ?_
  exact List.mem_map.mpr ⟨slot, isSlot, by simpa using isNamed⟩

/-- Only names of slots count when names are checked. -/
theorem checkNames_congr {names names' : List String}
    (same : ∀ slot ∈ shape.slots, slot.name ∈ names' ↔ slot.name ∈ names)
    : shape.checkNames names' = shape.checkNames names := by
  rw [checkNames, checkNames, List.find?_congr]
  intro slot isSlot
  simp [same slot isSlot]

/-- No slot is left out by names among which all slots are. -/
theorem checkNames_eq_ok {names : List String} (all : ∀ slot ∈ shape.slots, slot.name ∈ names)
    : shape.checkNames names = .ok () := by
  rw [checkNames, List.find?_eq_none.mpr]
  intro slot isSlot
  simp [all slot isSlot]

theorem fill_nil (items : List V) (record : α)
    : fill ([] : List (Slot V ε α)) items record = .ok record := by
  rw [fill]

/-- A slot with a reader takes the part that the reader finds in an item. -/
theorem fill_ofReader {β : Type} (presence : Presence) (name : String) (read : V → Except ε β)
    (set : α → β → α) (slots : List (Slot V ε α)) (item : V) (items : List V) (record : α)
    : fill (.ofReader presence name read set :: slots) (item :: items) record
      = (read item).bind fun part => fill slots items (set record part) := by
  simp only [fill, Slot.ofReader]
  cases read item <;> rfl

end SchemaDoc.Shape.RecordShape
