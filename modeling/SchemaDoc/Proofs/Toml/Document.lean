import Mathlib.Data.List.Nodup
import SchemaDoc.Proofs.Shape.Record
import SchemaDoc.Toml.Document
import SchemaDoc.Toml.Shaped

/-! TOML documents that consist of sections with undotted names, none of them given twice.
Every section becomes a table of its entries, and a record is read from a table that names its
slots one by one.
-/

namespace SchemaDoc.Toml

open Shape

-----------------------------------------------------------------------------------------
-- Tables
-----------------------------------------------------------------------------------------

/-- The name and the value of an entry. -/
def Entry.binding (entry : Entry) : Key × Node := (entry.key, entry.node)

/-- The names in a table. -/
def Table.names (table : Table) : List String := table.entries.map (·.1.name)

namespace Table

theorem get?_eq_none {table : Table} {name : String} (isNew : name ∉ table.names)
    : table.get? name = none := by
  simp only [names, List.mem_map, not_exists, not_and] at isNew
  rw [get?, List.find?_eq_none.mpr]
  · rfl
  · intro entry isEntry
    simpa using isNew entry isEntry

/-- An entry with a new name goes behind the others. -/
theorem putEntry_eq {table : Table} (notDotted : table.origin ≠ .dotted) {entry : Entry}
    (undotted : entry.path = []) (isNew : entry.key.name ∉ table.names)
    : ∃ place, table.putEntry entry
        = some ⟨table.origin, place, table.entries ++ [entry.binding]⟩ := by
  have puts
      : table.put entry.path entry.key entry.node = some (table.add entry.key entry.node) := by
    simp [put, undotted, changeAt, notDotted, get?_eq_none isNew]
  exact ⟨_, by rw [putEntry, puts]; rfl⟩

/-- Entries with new names go behind the others, by induction on the entries. -/
theorem putEntries_eq {entries : List Entry} {table : Table} (notDotted : table.origin ≠ .dotted)
    (undotted : ∀ entry ∈ entries, entry.path = [])
    (distinct : (table.names ++ entries.map (·.key.name)).Nodup)
    : ∃ place, table.putEntries entries
        = some ⟨table.origin, place, table.entries ++ entries.map Entry.binding⟩ := by
  induction entries generalizing table with
  | nil => exact ⟨table.place, by simp [putEntries]⟩
  | cons entry entries ih =>
      obtain ⟨undottedEntry, undottedRest⟩ := List.forall_mem_cons.mp undotted
      rw [List.map_cons, List.append_cons] at distinct
      have isNew : entry.key.name ∉ table.names := fun isMember =>
        List.disjoint_of_nodup_append distinct.of_append_left isMember (List.mem_singleton_self _)
      obtain ⟨place, puts⟩ := putEntry_eq notDotted undottedEntry isNew
      obtain ⟨last, putsRest⟩ := @ih ⟨table.origin, place, table.entries ++ [entry.binding]⟩
        notDotted undottedRest (by simpa [names, Entry.binding] using distinct)
      refine ⟨last, ?_⟩
      rw [putEntries, List.foldlM_cons, puts]
      simpa [putEntries] using putsRest

end Table

-----------------------------------------------------------------------------------------
-- Sections
-----------------------------------------------------------------------------------------

/-- A section with undotted names, none of them given twice. -/
structure Section.IsPlain (written : Section) : Prop where
  path : written.header.path = []
  single : written.header.isRepeated = false
  undotted : ∀ entry ∈ written.entries, entry.path = []
  distinct : (written.entries.map (·.key.name)).Nodup

/-- What the lines of a section say. -/
def Section.statements (written : Section) : List Statement :=
  .header written.header :: written.entries.map .entry

/-- An entry of a document that stands for a section. -/
def Section.Gives (written : Section) (entry : Key × Node) : Prop :=
  ∃ place, entry = (written.header.key, .table .header place (written.entries.map Entry.binding))

theorem sectionsOf_entries (entries : List Entry) (statements : List Statement)
    : sectionsOf (entries.map .entry ++ statements)
      = (entries ++ (sectionsOf statements).1, (sectionsOf statements).2) := by
  induction entries with
  | nil => rfl
  | cons entry entries ih => rw [List.map_cons, List.cons_append, sectionsOf, ih]; rfl

theorem sectionsOf_statements (sections : List Section)
    : sectionsOf (sections.flatMap Section.statements) = ([], sections) := by
  induction sections with
  | nil => rfl
  | cons written sections ih =>
      rw [List.flatMap_cons, Section.statements, List.cons_append, sectionsOf,
        sectionsOf_entries, ih, List.append_nil]

/-- A section with a new name becomes a table behind the others. -/
theorem addSection_eq {written : Section} (plain : written.IsPlain) {root : Table}
    (isNew : written.header.key.name ∉ root.names)
    : ∃ entry, written.Gives entry
        ∧ root.changeAt false (Table.addSection written) written.header.path
          = some (root.add entry.1 entry.2) := by
  obtain ⟨place, puts⟩ := @Table.putEntries_eq written.entries
    ⟨.header, some written.header.place, []⟩ (by simp) plain.undotted
    (by simpa [Table.names] using plain.distinct)
  refine ⟨_, ⟨place, rfl⟩, ?_⟩
  simp only [plain.path, Table.changeAt, Table.addSection, plain.single, puts,
    Table.get?_eq_none isNew]
  rfl

/-- Sections with new names become tables one by one, by induction on the sections. -/
theorem addSections_eq {sections : List Section} (plain : ∀ written ∈ sections, written.IsPlain)
    {root : Table} (distinct : (root.names ++ sections.map (·.header.key.name)).Nodup)
    : ∃ entries, List.Forall₂ Section.Gives sections entries
        ∧ sections.foldlM (fun root written =>
            root.changeAt false (Table.addSection written) written.header.path) root
          = some { root with entries := root.entries ++ entries } := by
  induction sections generalizing root with
  | nil => exact ⟨[], .nil, by simp⟩
  | cons written sections ih =>
      obtain ⟨plainHead, plainRest⟩ := List.forall_mem_cons.mp plain
      rw [List.map_cons, List.append_cons] at distinct
      have isNew : written.header.key.name ∉ root.names := fun isMember =>
        List.disjoint_of_nodup_append distinct.of_append_left isMember (List.mem_singleton_self _)
      obtain ⟨entry, gives, adds⟩ := addSection_eq plainHead isNew
      have isKey : entry.1 = written.header.key := by
        obtain ⟨_, rfl⟩ := gives
        rfl
      obtain ⟨entries, giveRest, addsRest⟩ := @ih plainRest (root.add entry.1 entry.2)
        (by simpa [Table.names, Table.add, isKey] using distinct)
      refine ⟨entry :: entries, .cons gives giveRest, ?_⟩
      rw [List.foldlM_cons, adds]
      simpa [Table.add] using addsRest

/-- A text of plain sections with distinct names is a document with a table for each. -/
theorem documentOf?_eq {chars : List Char} (noMark : chars.head? ≠ some byteOrderMark)
    {sections : List Section} (reads : scanLines chars = some (sections.flatMap Section.statements))
    (plain : ∀ written ∈ sections, written.IsPlain)
    (distinct : (sections.map (·.header.key.name)).Nodup)
    : ∃ root, documentOf? (String.ofList chars) = some root
        ∧ List.Forall₂ Section.Gives sections root.entries := by
  obtain ⟨entries, give, adds⟩ := @addSections_eq sections plain ⟨.header, none, []⟩
    (by simpa [Table.names] using distinct)
  refine ⟨⟨.header, none, entries⟩, ?_, give⟩
  simp only [documentOf?, String.toList_ofList, noMark, if_false, reads]
  simp only [bind, Option.bind, sectionsOf_statements]
  exact adds

-----------------------------------------------------------------------------------------
-- Records
-----------------------------------------------------------------------------------------

variable {α : Type}

/-- Entries that are the slots one by one fill them, by induction on the slots still open. -/
theorem foldlM_readEntry {shape : RecordShape Node Fault α} (distinct : shape.slotNames.Nodup)
    {slots : List (Slot Node Fault α)} (areSlots : ∀ slot ∈ slots, slot ∈ shape.slots)
    {entries : List (Key × Node)} (named : entries.map (·.1.name) = slots.map Slot.name)
    {start record : α} (fills : RecordShape.fill slots (entries.map Prod.snd) start = .ok record)
    : entries.foldlM (Node.readEntry shape) start = .ok record := by
  induction slots generalizing entries start with
  | nil =>
      obtain rfl := List.map_eq_nil_iff.mp named
      simpa [RecordShape.fill, pure, Except.pure] using fills
  | cons slot slots ih =>
      obtain ⟨⟨key, node⟩, entries, rfl, isNamed, areNamed⟩ := List.map_eq_cons_iff.mp named
      obtain ⟨isSlot, areSlots⟩ := List.forall_mem_cons.mp areSlots
      simp only [List.map_cons, RecordShape.fill] at fills
      cases puts : slot.put node start with
      | error fault => simp [puts, bind, Except.bind] at fills
      | ok next =>
          have takesSlot : Node.readEntry shape start (key, node) = .ok next := by
            rw [Node.readEntry, isNamed, RecordShape.slot?_name distinct isSlot]
            simp only [puts]
            rfl
          rw [List.foldlM_cons, takesSlot]
          simp only [puts, bind, Except.bind] at fills ⊢
          exact ih areSlots areNamed fills

/-- A record is read from a table that names its slots one by one. -/
theorem asRecord_table {shape : RecordShape Node Fault α} (distinct : shape.slotNames.Nodup)
    {entries : List (Key × Node)} (named : entries.map (·.1.name) = shape.slotNames)
    {record : α} (fills : shape.ofItems (entries.map Prod.snd) = .ok record)
    (origin : Origin) (place : Option Place)
    : Node.asRecord shape (.table origin place entries) = .ok record := by
  have complete : shape.checkNames (entries.map fun entry => entry.1.name) = .ok () := by
    rw [named]
    exact RecordShape.checkNames_eq_ok fun slot isSlot => List.mem_map_of_mem isSlot
  have reads := foldlM_readEntry distinct (fun _ isSlot => isSlot) named fills
  simp only [Node.asRecord, reads, complete]
  rfl

end SchemaDoc.Toml
