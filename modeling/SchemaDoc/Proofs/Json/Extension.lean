import SchemaDoc.Json.Reading
import SchemaDoc.Json.Shaped
import SchemaDoc.Proofs.Lists
import SchemaDoc.Proofs.Shape.Record

/-! JSON values with more members than a reader asks for.
A reader of a record visits all members of an object, but those that no slot is named for leave no
trace. So two values that differ in such members, at any depth, are read alike, and what one
of them is refused for, the other is refused for too.
-/

namespace SchemaDoc.Json

open Shape

variable {α β : Type}

-----------------------------------------------------------------------------------------
-- Values with more members
-----------------------------------------------------------------------------------------

/-- How the value of a part may be extended, by the name of the part. -/
abbrev Parts := String → Json → Json → Prop

/-- No part is extended. -/
def Parts.fixed : Parts := fun _ => Eq

/-- Members with others added to them, under names that are not known. -/
inductive MembersExtend (known : List String) (parts : Parts)
    : List (String × Json) → List (String × Json) → Prop
  | nil : MembersExtend known parts [] []
  | keep {name value value' members members'} (part : parts name value value')
    (behind : MembersExtend known parts members members')
    : MembersExtend known parts ((name, value) :: members) ((name, value') :: members')
  | add {name value members members'} (unknown : name ∉ known)
    (behind : MembersExtend known parts members members')
    : MembersExtend known parts members ((name, value) :: members')

/-- Items that are extended as the parts whose places they take. -/
inductive ItemsExtend (parts : Parts) : List String → List Json → List Json → Prop
  | nil {names} : ItemsExtend parts names [] []
  | surplus {items} : ItemsExtend parts [] items items
  | cons {name names value value' items items'} (part : parts name value value')
    (behind : ItemsExtend parts names items items')
    : ItemsExtend parts (name :: names) (value :: items) (value' :: items')

/-- A record with more members. One that is given as an array can have them in its parts only. -/
inductive RecordExtends (known : List String) (parts : Parts) : Json → Json → Prop
  | refl {value} : RecordExtends known parts value value
  | object {members members'} (extend : MembersExtend known parts members members')
    : RecordExtends known parts (.object members) (.object members')
  | array {items items'} (extend : ItemsExtend parts known items items')
    : RecordExtends known parts (.array items) (.array items')

/-- A list whose items are extended. -/
inductive ListExtends (each : Json → Json → Prop) : Json → Json → Prop
  | refl {value} : ListExtends each value value
  | array {items items'} (extend : List.Forall₂ each items items')
    : ListExtends each (.array items) (.array items')

section

variable {known : List String} {parts : Parts} {members members' : List (String × Json)}

/-- A new member is put into an object where its name belongs. -/
theorem MembersExtend.insertMember (extend : MembersExtend known parts members members')
    {name : String} (unknown : name ∉ known) (fresh : name ∉ members'.map Prod.fst) (value : Json)
    : MembersExtend known parts members (insertMember name value members') := by
  induction extend with
  | nil => exact .add unknown .nil
  | keep part behind ih =>
      simp only [List.map_cons, List.mem_cons, not_or] at fresh
      rw [Json.insertMember, if_neg fresh.1]
      split
      · exact .add unknown (.keep part behind)
      · exact .keep part (ih fresh.2)
  | add unknown' behind ih =>
      simp only [List.map_cons, List.mem_cons, not_or] at fresh
      rw [Json.insertMember, if_neg fresh.1]
      split
      · exact .add unknown (.add unknown' behind)
      · exact .add unknown' (ih fresh.2)

/-- Names that are known are neither added nor taken away. -/
theorem MembersExtend.mem_names_iff (extend : MembersExtend known parts members members')
    {name : String} (isKnown : name ∈ known)
    : name ∈ members'.map Prod.fst ↔ name ∈ members.map Prod.fst := by
  induction extend with
  | nil => rfl
  | keep _ _ ih => rw [List.map_cons, List.map_cons, List.mem_cons, List.mem_cons, ih]
  | @add other _ _ _ unknown _ ih =>
      have differs : name ≠ other := fun same => unknown (same ▸ isKnown)
      rw [List.map_cons, List.mem_cons, ih]
      simp [differs]

/-- Names that are there stay. -/
theorem MembersExtend.names_subset (extend : MembersExtend known parts members members')
    : members.map Prod.fst ⊆ members'.map Prod.fst := by
  induction extend with
  | nil => exact List.Subset.refl _
  | keep _ _ ih => exact List.cons_subset_cons _ ih
  | add _ _ ih => exact List.subset_cons_of_subset _ ih

/-- A search for a known name finds the same when no part is extended. -/
theorem MembersExtend.find?_eq (extend : MembersExtend known .fixed members members')
    {name : String} (isKnown : name ∈ known)
    : members'.find? (·.1 == name) = members.find? (·.1 == name) := by
  induction extend with
  | nil => rfl
  | keep part _ ih =>
      cases part
      rw [List.find?_cons, List.find?_cons, ih]
  | @add other _ _ _ unknown _ ih =>
      have differs : other ≠ name := fun same => unknown (same ▸ isKnown)
      rw [List.find?_cons_of_neg (by simpa using differs), ih]

theorem ItemsExtend.length_eq {names : List String} {items items' : List Json}
    (extend : ItemsExtend parts names items items')
    : items'.length = items.length := by
  induction extend with
  | nil | surplus => rfl
  | cons _ _ ih => rw [List.length_cons, List.length_cons, ih]

theorem RecordExtends.null_iff {value value' : Json} (extend : RecordExtends known parts value value')
    : value = .null ↔ value' = .null := by
  cases extend <;> simp

end

-----------------------------------------------------------------------------------------
-- Results that agree
-----------------------------------------------------------------------------------------

/-- Two readings that both succeed, with results that correspond, or that are refused alike. -/
inductive Agree {ε : Type} (same : α → β → Prop) : Except ε α → Except ε β → Prop
  | ok {x y} (corresponds : same x y) : Agree same (.ok x) (.ok y)
  | error {e} : Agree same (.error e) (.error e)

section

variable {ε γ δ : Type} {same : α → β → Prop} {same' : γ → δ → Prop} {result : Except ε α}
  {result' : Except ε β}

theorem Agree.bind (agree : Agree same result result') {next : α → Except ε γ}
    {next' : β → Except ε δ} (agreeNext : ∀ x y, same x y → Agree same' (next x) (next' y))
    : Agree same' (result >>= next) (result' >>= next') := by
  cases agree with
  | ok corresponds => exact agreeNext _ _ corresponds
  | error => exact .error

theorem Agree.map (agree : Agree same result result') {f : α → γ} {g : β → δ}
    (corresponds : ∀ x y, same x y → same' (f x) (g y))
    : Agree same' (result.map f) (result'.map g) := by
  cases agree with
  | ok both => exact .ok (corresponds _ _ both)
  | error => exact .error

theorem Agree.refl {same : α → α → Prop} (refl : ∀ x, same x x) (result : Except ε α)
    : Agree same result result := by
  cases result with
  | ok x => exact .ok (refl x)
  | error => exact .error

end

-----------------------------------------------------------------------------------------
-- Readers that pass over what is added
-----------------------------------------------------------------------------------------

/-- A reader takes extended values alike. -/
def ReadsAlike (extension : Json → Json → Prop) (same : α → α → Prop)
    (read : Json → Except Mismatch α) : Prop :=
  ∀ value value', extension value value' → Agree same (read value) (read value')

/-- A slot puts extended parts into records alike. -/
def PutsAlike (parts : Parts) (same : α → α → Prop) (slot : Slot Json Mismatch α) : Prop :=
  ∀ value value' record record',
    parts slot.name value value' → same record record'
    → Agree same (slot.put value record) (slot.put value' record')

section

variable {each : Json → Json → Prop} {same : α → α → Prop} {read : Json → Except Mismatch α}
  {parts : Parts}

theorem ReadsAlike.asOption (reads : ReadsAlike each same read)
    (nulls : ∀ value value', each value value' → (value = .null ↔ value' = .null))
    : ReadsAlike each (Option.Rel same) (asOption read) := by
  intro value value' extended
  by_cases isNull : value = .null
  · rw [isNull, (nulls value value' extended).mp isNull]
    exact .ok .none
  · have isNull' : value' ≠ .null := mt (nulls value value' extended).mpr isNull
    rw [Json.asOption.eq_2 read value isNull, Json.asOption.eq_2 read value' isNull']
    exact (reads value value' extended).map fun _ _ => .some

theorem ReadsAlike.mapM (reads : ReadsAlike each same read) {items items' : List Json}
    (extend : List.Forall₂ each items items')
    : Agree (List.Forall₂ same) (items.mapM read) (items'.mapM read) := by
  induction extend with
  | nil => exact .ok .nil
  | cons head _ ih =>
      rw [List.mapM_cons, List.mapM_cons]
      exact (reads _ _ head).bind fun _ _ first => ih.bind fun _ _ others =>
        .ok (.cons first others)

theorem ReadsAlike.asList (reads : ReadsAlike each same read) (refl : ∀ x, same x x)
    : ReadsAlike (ListExtends each) (List.Forall₂ same) (asList read) := by
  intro value value' extended
  cases extended with
  | refl => exact .refl (fun xs => List.forall₂_same.mpr fun x _ => refl x) _
  | array extend => exact reads.mapM extend

theorem ReadsAlike.asList_eq (reads : ReadsAlike each Eq read)
    : ReadsAlike (ListExtends each) Eq (Json.asList read) := by
  have alike := reads.asList fun _ => rfl
  rwa [List.forall₂_eq_eq_eq] at alike

/-- A slot whose part is read alike, and put in alike. -/
theorem putsAlike_ofReader {samePart : β → β → Prop} {readPart : Json → Except Mismatch β}
    {name : String} (reads : ReadsAlike (parts name) samePart readPart) (presence : Presence)
    {set : α → β → α}
    (sets : ∀ record record' x x', same record record' → samePart x x'
      → same (set record x) (set record' x'))
    : PutsAlike parts same (.ofReader presence name readPart set) := by
  intro value value' record record' extended records
  exact (reads value value' extended).map fun x x' => sets record record' x x' records

/-- A slot whose part is not extended. -/
theorem putsAlike_of_fixed {name : String} (fixed : parts name = Eq) (presence : Presence)
    (readPart : Json → Except Mismatch β) {set : α → β → α}
    (sets : ∀ record record' x, same record record' → same (set record x) (set record' x))
    : PutsAlike parts same (.ofReader presence name readPart set) := by
  have reads : ReadsAlike (parts name) Eq readPart := by
    rw [fixed]
    rintro value _ rfl
    exact .refl (fun _ => rfl) _
  refine putsAlike_ofReader reads presence ?_
  rintro record record' x _ records rfl
  exact sets record record' x records

/-- Items are put into slots one by one, by induction on the slots still open. -/
theorem fill_agree {slots : List (Slot Json Mismatch α)}
    (puts : ∀ slot ∈ slots, PutsAlike parts same slot) {items items' : List Json}
    (extend : ItemsExtend parts (slots.map Slot.name) items items') {record record' : α}
    (records : same record record')
    : Agree same (RecordShape.fill slots items record) (RecordShape.fill slots items' record') := by
  induction slots generalizing items items' record record' with
  | nil =>
      rw [RecordShape.fill_nil, RecordShape.fill_nil]
      exact .ok records
  | cons slot slots ih =>
      cases extend with
      | nil => exact .ok records
      | cons part behind =>
          obtain ⟨putsFirst, putsBehind⟩ := List.forall_mem_cons.mp puts
          rw [RecordShape.fill, RecordShape.fill]
          exact (putsFirst _ _ _ _ part records).bind fun _ _ => ih putsBehind behind

section

variable {shape : RecordShape Json Mismatch α} (puts : ∀ slot ∈ shape.slots, PutsAlike parts same slot)

include puts

/-- The members of a record are put in one by one, those that are added without effect. -/
theorem foldlM_members_agree {members members' : List (String × Json)}
    (extend : MembersExtend shape.slotNames parts members members') {record record' : α}
    (records : same record record')
    : let step (record : α) (member : String × Json) : Except Mismatch α :=
        (shape.slot? member.1).elim (.ok record) (·.put member.2 record)
      Agree same (members.foldlM step record) (members'.foldlM step record') := by
  intro step
  induction extend generalizing record record' with
  | nil => exact .ok records
  | @keep name value value' _ _ part _ ih =>
      have first : Agree same (step record (name, value)) (step record' (name, value')) := by
        simp only [step]
        cases found : shape.slot? name with
        | none => exact .ok records
        | some slot =>
            obtain rfl : slot.name = name := by simpa using List.find?_some found
            exact puts slot (List.mem_of_find?_eq_some found) _ _ _ _ part records
      rw [List.foldlM_cons, List.foldlM_cons]
      exact first.bind fun _ _ => ih
  | @add name value _ _ unknown _ ih =>
      have noSlot : step record' (name, value) = .ok record' := by
        simp only [step]
        rw [RecordShape.slot?_eq_none unknown]
        rfl
      rw [List.foldlM_cons, noSlot]
      exact ih records

/-- A record is read alike with members added for which it has no slot, and with parts that are
read alike themselves.
-/
theorem readsAlike_asRecord (refl : ∀ x, same x x)
    : ReadsAlike (RecordExtends shape.slotNames parts) same (asRecord shape) := by
  intro value value' extended
  cases extended with
  | refl => exact .refl refl _
  | @object members members' extend =>
      have sameNames : shape.checkNames (members'.map Prod.fst)
          = shape.checkNames (members.map Prod.fst) :=
        RecordShape.checkNames_congr fun slot isSlot =>
          extend.mem_names_iff (List.mem_map_of_mem isSlot)
      rw [Json.asRecord, Json.asRecord, sameNames]
      refine (foldlM_members_agree puts extend (refl shape.start)).bind fun x y records => ?_
      exact (Agree.refl (fun _ => rfl) _).bind fun _ _ _ => .ok records
  | @array items items' extend =>
      rw [Json.asRecord, Json.asRecord, extend.length_eq]
      refine (fill_agree puts extend (refl shape.start)).bind fun x y records => ?_
      refine (Agree.refl (fun _ => rfl) _).bind fun _ _ _ => ?_
      split
      · exact .error
      · exact .ok records

end

end

/-- A record of which no part is extended is the same with more members. -/
theorem readsAlike_asRecord_fixed (shape : RecordShape Json Mismatch α)
    : ReadsAlike (RecordExtends shape.slotNames .fixed) Eq (asRecord shape) := by
  refine readsAlike_asRecord ?_ fun _ => rfl
  rintro slot _ value _ record _ rfl rfl
  exact .refl (fun _ => rfl) _

end SchemaDoc.Json
