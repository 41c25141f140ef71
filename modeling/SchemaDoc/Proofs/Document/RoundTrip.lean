import SchemaDoc.Document.Json
import SchemaDoc.Document.Reading
import SchemaDoc.Proofs.Json.Shaped

/-! Every document comes back from its JSON text, in either layout.
Each kind of record is read back part by part, from the parts upwards.
-/

namespace SchemaDoc

open Json Shape

-----------------------------------------------------------------------------------------
-- Parts
-----------------------------------------------------------------------------------------

theorem inverts_asTexts : Inverts Written.asTexts namesToJson := inverts_asText.asList

theorem ConstraintKind.inverts_asVariant
    : Inverts (Written.asVariant variants) fun kind => .string kind.keyword :=
  Json.inverts_asVariant fun kind => by cases kind <;> decide

theorem Cardinality.inverts_asVariant
    : Inverts (Written.asVariant variants) fun cardinality => .string cardinality.name :=
  Json.inverts_asVariant fun cardinality => by cases cardinality <;> decide

-----------------------------------------------------------------------------------------
-- Records
-----------------------------------------------------------------------------------------

attribute [local simp] RecordShape.ofItems RecordShape.fill_ofReader RecordShape.fill_nil
  Slot.required Slot.listed Except.bind

theorem Column.inverts_toJson : Inverts (Written.asRecord shape) toJson := by
  intro column
  have default : Written.asOption Written.asText (column.default.elim Json.null Json.string).written
      = .ok column.default := inverts_asText.asOption (fun _ => by simp [written]) column.default
  rw [toJson, asRecord_written (by decide) rfl]
  simp [shape, inverts_asText _, inverts_asFlag _, default]

theorem Constraint.inverts_toJson : Inverts (Written.asRecord shape) toJson := by
  intro constraint
  rw [toJson, asRecord_written (by decide) rfl]
  simp [shape, inverts_asText _, inverts_asTexts _, ConstraintKind.inverts_asVariant _]

theorem TableIndex.inverts_toJson : Inverts (Written.asRecord shape) toJson := by
  intro index
  rw [toJson, asRecord_written (by decide) rfl]
  simp [shape, inverts_asText _, inverts_asTexts _]

theorem Table.inverts_toJson : Inverts (Written.asRecord shape) toJson := by
  intro table
  rw [toJson, asRecord_written (by decide) rfl]
  simp [shape, inverts_asText _, Column.inverts_toJson.asList _,
    Constraint.inverts_toJson.asList _, TableIndex.inverts_toJson.asList _]

theorem Relation.inverts_toJson : Inverts (Written.asRecord shape) toJson := by
  intro relation
  rw [toJson, asRecord_written (by decide) rfl]
  simp [shape, inverts_asText _, inverts_asTexts _, Cardinality.inverts_asVariant _]

theorem EnumType.inverts_toJson : Inverts (Written.asRecord shape) toJson := by
  intro enum
  rw [toJson, asRecord_written (by decide) rfl]
  simp [shape, inverts_asText _, inverts_asTexts _]

theorem Driver.inverts_toJson : Inverts (Written.asRecord shape) toJson := by
  intro driver
  rw [toJson, asRecord_written (by decide) rfl]
  simp [shape, inverts_asText _]

theorem Document.inverts_toJson : Inverts (Written.asRecord shape) toJson := by
  intro document
  rw [toJson, asRecord_written (by decide) rfl]
  simp [shape, inverts_asText _, Table.inverts_toJson.asList _,
    Relation.inverts_toJson.asList _, EnumType.inverts_toJson.asList _, Driver.inverts_toJson _]

-----------------------------------------------------------------------------------------
-- Whole documents
-----------------------------------------------------------------------------------------

variable {depth : Nat}

theorem plain_arrayOf {α : Type} {toJson : α → Json} (shallow : depth < Written.maxDepth)
    (plain : ∀ x, Plain (depth + 1) (toJson x)) (xs : List α)
    : Plain depth (.array (xs.map toJson)) := by
  refine .array shallow fun item isItem => ?_
  obtain ⟨x, -, rfl⟩ := List.mem_map.mp isItem
  exact plain x

theorem plain_namesToJson (shallow : depth < Written.maxDepth) (names : List String)
    : Plain depth (namesToJson names) :=
  plain_arrayOf shallow (fun _ => .string) names

attribute [local simp] Plain.string Plain.bool

theorem Column.plain_toJson (column : Column) : Plain 4 column.toJson := by
  have default : Plain 5 (column.default.elim Json.null Json.string) := by
    cases column.default with
    | none => exact .null
    | some text => exact .string
  exact .object (by decide) (by simp [default])

theorem Constraint.plain_toJson (constraint : Constraint) : Plain 4 constraint.toJson :=
  .object (by decide) (by simp (disch := decide) [plain_namesToJson])

theorem TableIndex.plain_toJson (index : TableIndex) : Plain 4 index.toJson :=
  .object (by decide) (by simp (disch := decide) [plain_namesToJson])

theorem Table.plain_toJson (table : Table) : Plain 2 table.toJson := by
  refine .object (by decide) ?_
  simp only [List.forall_mem_cons, Plain.string, true_and]
  exact ⟨plain_arrayOf (by decide) Column.plain_toJson _,
    plain_arrayOf (by decide) Constraint.plain_toJson _,
    plain_arrayOf (by decide) TableIndex.plain_toJson _, by simp⟩

theorem Relation.plain_toJson (relation : Relation) : Plain 2 relation.toJson :=
  .object (by decide) (by simp (disch := decide) [plain_namesToJson])

theorem EnumType.plain_toJson (enum : EnumType) : Plain 2 enum.toJson :=
  .object (by decide) (by simp (disch := decide) [plain_namesToJson])

theorem Driver.plain_toJson (driver : Driver) : Plain 1 driver.toJson :=
  .object (by decide) (by simp)

theorem Document.plain_toJson (document : Document) : Plain 0 document.toJson := by
  refine .object (by decide) ?_
  simp only [List.forall_mem_cons, Plain.string, true_and]
  exact ⟨plain_arrayOf (by decide) Table.plain_toJson _,
    plain_arrayOf (by decide) Relation.plain_toJson _,
    plain_arrayOf (by decide) EnumType.plain_toJson _, Driver.plain_toJson _, by simp⟩

/-- Every document comes back from its text in either layout. Both texts are the same JSON, and
the compact one stands on one line.
-/
theorem Document.ofText_toText (document : Document)
    : (∀ layout, Document.ofText (document.toText layout) = .ok document)
      ∧ (∀ c ∈ (document.toText .compact).toList, c ≠ '\n' ∧ c ≠ '\r')
      ∧ ∃ value, ∀ layout, Json.ofText (document.toText layout) = .ok value := by
  refine ⟨fun layout => ?_, fun c isMember => ?_, _, document.plain_toJson.json_ofText_toText⟩
  · simp only [Document.ofText, toText, readText, document.plain_toJson.written_ofText_toText,
      Document.inverts_toJson document]
    rfl
  · rw [toText, Json.toText, String.toList_ofList] at isMember
    have notControl := document.plain_toJson.hasNoControl_render 0 c isMember
    constructor <;> (rintro rfl; exact notControl (by decide))

end SchemaDoc
