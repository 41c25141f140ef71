import SchemaDoc.Json.ShapedText
import SchemaDoc.Proofs.Json.Rendering
import SchemaDoc.Proofs.Shape.Record

/-! Readers that take back what was written: of lists, of parts that may be missing, of names
out of several, and of records whose members stand in the order of their slots.
-/

namespace SchemaDoc.Json

open Shape Written

variable {α : Type}

/-- A reader gives back every value from the JSON that is written of it. -/
def Inverts (read : Written → Except TextError α) (toJson : α → Json) : Prop :=
  ∀ x, read (toJson x).written = .ok x

theorem inverts_asText : Inverts Written.asText .string := fun _ => rfl

theorem inverts_asFlag : Inverts Written.asFlag .bool := fun _ => rfl

/-- A part that is missing is null, so the reader must not take null for a part. -/
theorem Inverts.asOption {read : Written → Except TextError α} {toJson : α → Json}
    (inverts : Inverts read toJson) (notNull : ∀ x, (toJson x).written ≠ .null)
    : Inverts (Written.asOption read) fun x? => x?.elim .null toJson := by
  intro x?
  cases x? with
  | none => rfl
  | some x =>
      change Written.asOption read (toJson x).written = .ok (some x)
      rw [Written.asOption, inverts x]
      · rfl
      · exact notNull x

theorem Inverts.asList {read : Written → Except TextError α} {toJson : α → Json}
    (inverts : Inverts read toJson)
    : Inverts (Written.asList read) fun xs => .array (xs.map toJson) := by
  intro xs
  have items : (xs.map (written ∘ toJson)).mapM read = .ok xs := by
    induction xs with
    | nil => rfl
    | cons x xs ih => rw [List.map_cons, List.mapM_cons, Function.comp, inverts x, ih]; rfl
  rw [written, writtenItems_eq_map, List.map_map, Written.asList, items]
  rfl

/-- A name out of several is read as the first variant that has it. -/
theorem inverts_asVariant {variants : List (String × α)} {name : α → String}
    (named : ∀ x, (variants.find? (·.1 == name x)).map Prod.snd = some x)
    : Inverts (Written.asVariant variants) fun x => .string (name x) := by
  intro x
  obtain ⟨⟨found, _⟩, search, rfl⟩ := Option.map_eq_some_iff.mp (named x)
  simp [Written.asVariant, written, search]

/-- Members that are the slots one by one fill them, by induction on the slots still open. -/
theorem foldlM_readMember {shape : RecordShape Written TextError α}
    (distinct : shape.slotNames.Nodup) {slots : List (Slot Written TextError α)}
    (areSlots : ∀ slot ∈ slots, slot ∈ shape.slots) (apart : (slots.map Slot.name).Nodup)
    {members : List (String × Json)} (named : members.map Prod.fst = slots.map Slot.name)
    (record : α) (given : List String) (fresh : ∀ slot ∈ slots, slot.name ∉ given)
    : (writtenMembers members).foldlM (readMember shape) (record, given)
      = (RecordShape.fill slots (members.map fun member => member.2.written) record).map
          fun filled => (filled, (slots.map Slot.name).reverse ++ given) := by
  induction slots generalizing members record given with
  | nil =>
      obtain rfl := List.map_eq_nil_iff.mp named
      rfl
  | cons slot slots ih =>
      obtain ⟨⟨_, value⟩, members, rfl, rfl, areNamed⟩ := List.map_eq_cons_iff.mp named
      obtain ⟨isSlot, areSlots⟩ := List.forall_mem_cons.mp areSlots
      obtain ⟨isFresh, areFresh⟩ := List.forall_mem_cons.mp fresh
      obtain ⟨isApart, areApart⟩ := List.nodup_cons.mp apart
      have freshBehind : ∀ other ∈ slots, other.name ∉ slot.name :: given := by
        intro other isOther isMember
        rcases List.mem_cons.mp isMember with same | isMember
        · exact isApart (same ▸ List.mem_map_of_mem isOther)
        · exact areFresh other isOther isMember
      have takesSlot : readMember shape (record, given) (.ok slot.name, value.written)
          = (slot.put value.written record).map fun record => (record, slot.name :: given) := by
        simp only [readMember, sound, Except.mapError, bind, Except.bind]
        simp only [RecordShape.slot?_name distinct isSlot, List.contains_eq_mem, isFresh,
          decide_false]
        cases slot.put value.written record <;> rfl
      rw [writtenMembers, List.foldlM_cons, takesSlot]
      simp only [List.map_cons, RecordShape.fill]
      cases slot.put value.written record with
      | error fault => rfl
      | ok record =>
          simpa [Except.map, bind, Except.bind] using
            ih areSlots areApart areNamed record (slot.name :: given) freshBehind

/-- A record is read from members that are its slots one by one as from its parts in a row. -/
theorem asRecord_written {shape : RecordShape Written TextError α}
    (distinct : shape.slotNames.Nodup) {members : List (String × Json)}
    (named : members.map Prod.fst = shape.slotNames)
    : Written.asRecord shape (object members).written
      = shape.ofItems (members.map fun member => member.2.written) := by
  have fills := foldlM_readMember distinct (fun _ isSlot => isSlot) distinct named shape.start []
    (by simp)
  have complete : shape.checkNames ((shape.slots.map Slot.name).reverse ++ []) = .ok () := by
    refine RecordShape.checkNames_eq_ok fun slot isSlot => ?_
    simpa using ⟨slot, isSlot, rfl⟩
  rw [written, Written.asRecord, fills, RecordShape.ofItems]
  cases RecordShape.fill shape.slots (members.map fun member => member.2.written) shape.start with
  | error fault => rfl
  | ok record =>
      simp only [Except.map, bind, Except.bind, complete]
      rfl

end SchemaDoc.Json
