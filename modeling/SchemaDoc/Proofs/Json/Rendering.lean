import SchemaDoc.Json.Reading
import SchemaDoc.Proofs.Json.Quoted

/-! Every value without numbers comes back from its written form, in either layout.
The layouts differ in blanks only, which the reader passes over. Its fuel is three times the
length of a text, of which a bracket or a brace with what follows it takes at most three.
-/

namespace SchemaDoc.Json

open Written

-----------------------------------------------------------------------------------------
-- Values that are read without a doubt
-----------------------------------------------------------------------------------------

/-- A value without numbers that lies in some number of arrays and objects, none of them too
deep for a reader.
-/
inductive Plain : Nat → Json → Prop
  | null {depth} : Plain depth null
  | bool {depth b} : Plain depth (bool b)
  | string {depth text} : Plain depth (string text)
  | array {depth items} (shallow : depth < maxDepth)
    (within : ∀ item ∈ items, Plain (depth + 1) item)
    : Plain depth (array items)
  | object {depth members} (shallow : depth < maxDepth)
    (within : ∀ member ∈ members, Plain (depth + 1) member.2)
    : Plain depth (object members)

mutual

/-- The form in which a value is written. -/
def written : Json → Written
  | null => .null
  | bool b => .bool b
  | number n => .number n
  | string text => .string text
  | array items => .array (writtenItems items) .closed
  | object members => .object (writtenMembers members) .closed

/-- The forms in which items are written. -/
def writtenItems : List Json → List Written
  | [] => []
  | item :: items => written item :: writtenItems items

/-- The forms in which members are written. -/
def writtenMembers : List (String × Json) → List (Except Fault String × Written)
  | [] => []
  | (name, value) :: members => (.ok name, written value) :: writtenMembers members

end

theorem writtenItems_eq_map (items : List Json) : writtenItems items = items.map written := by
  induction items with
  | nil => rfl
  | cons item items ih => rw [writtenItems, ih, List.map_cons]

-----------------------------------------------------------------------------------------
-- Blanks
-----------------------------------------------------------------------------------------

theorem skipBlanks_cons {c : Char} (solid : isBlank c = false) (rest : List Char)
    : skipBlanks (c :: rest) = c :: rest := by
  simp [skipBlanks, solid]

theorem skipBlanks_append {blanks : List Char} (areBlank : ∀ c ∈ blanks, isBlank c = true)
    (text : List Char)
    : skipBlanks (blanks ++ text) = skipBlanks text :=
  List.dropWhile_append_of_pos areBlank

theorem Layout.isBlank_of_mem_lineBreak (layout : Layout) (level : Nat)
    : ∀ c ∈ layout.lineBreak level, isBlank c = true := by
  cases layout with
  | compact => simp [lineBreak]
  | indented =>
      intro c isMember
      rcases List.mem_cons.mp isMember with rfl | isMember
      · rfl
      · rw [List.eq_of_mem_replicate isMember]
        rfl

/-- What goes between a name and its value is a colon with blanks behind it. -/
theorem Layout.colon_eq (layout : Layout)
    : ∃ blanks, layout.colon = ':' :: blanks ∧ ∀ c ∈ blanks, isBlank c = true := by
  cases layout with
  | compact => exact ⟨[], rfl, by simp⟩
  | indented => exact ⟨[' '], rfl, by simp [isBlank]⟩

/-- A reader of a value passes over the blanks in front of it. -/
theorem scanValue_append {blanks : List Char} (areBlank : ∀ c ∈ blanks, isBlank c = true)
    (fuel depth : Nat) (text : List Char)
    : scanValue (fuel + 1) depth (blanks ++ text) = scanValue (fuel + 1) depth text := by
  rw [scanValue, scanValue, skipBlanks_append areBlank]

-----------------------------------------------------------------------------------------
-- One step of a reader
-----------------------------------------------------------------------------------------

/-- A written value begins with a character that is neither blank nor the end of an array. -/
theorem Plain.render_cons {depth : Nat} {value : Json} (plain : Plain depth value)
    (layout : Layout) (level : Nat)
    : ∃ c more, render layout level value = c :: more ∧ isBlank c = false ∧ c ≠ ']' := by
  cases plain with
  | null => exact ⟨_, _, rfl, rfl, by decide⟩
  | @bool _ b => cases b <;> exact ⟨_, _, rfl, rfl, by decide⟩
  | string => exact ⟨_, _, rfl, rfl, by decide⟩
  | @array _ items => cases items <;> exact ⟨_, _, rfl, rfl, by decide⟩
  | @object _ members => cases members <;> exact ⟨_, _, rfl, rfl, by decide⟩

section Steps

variable {fuel depth : Nat} {blanks : List Char} (areBlank : ∀ c ∈ blanks, isBlank c = true)
  {rest : List Char} {behind : Option (List Char)} {ending : Ending}

section

include areBlank

theorem scanItems_nil
    : scanItems (fuel + 1) depth (blanks ++ ']' :: rest) = (([], .closed), some rest) := by
  rw [scanItems, skipBlanks_append areBlank, skipBlanks_cons rfl]
  rfl

theorem scanMembers_nil
    : scanMembers (fuel + 1) depth (blanks ++ '\x7d' :: rest) = (([], .closed), some rest) := by
  rw [scanMembers, skipBlanks_append areBlank, skipBlanks_cons rfl]
  rfl

end

theorem scanValue_array (shallow : depth < maxDepth) {text : List Char} {value : Written}
    (reads : scanArray fuel (depth + 1) text = (value, behind))
    : scanValue (fuel + 1) depth ('[' :: text) = (value, behind) := by
  have notDeep : ¬maxDepth ≤ depth := Nat.not_le.mpr shallow
  rw [scanValue, skipBlanks_cons rfl]
  simp [guardDepth, notDeep, reads]

theorem scanValue_object (shallow : depth < maxDepth) {text : List Char} {value : Written}
    (reads : scanObject fuel (depth + 1) text = (value, behind))
    : scanValue (fuel + 1) depth ('\x7b' :: text) = (value, behind) := by
  have notDeep : ¬maxDepth ≤ depth := Nat.not_le.mpr shallow
  rw [scanValue, skipBlanks_cons rfl]
  simp [guardDepth, notDeep, reads]

section Items

variable {c : Char} {more : List Char} {item : Written} {items : List Written}
  (solid : isBlank c = false) (notEnd : c ≠ ']')
  (reads : scanValue fuel depth (c :: more) = (item, some rest))
  (follows : scanItems fuel depth rest = ((items, ending), behind))

include areBlank solid notEnd reads follows

theorem scanArray_cons
    : scanArray (fuel + 1) depth (blanks ++ c :: more)
      = (.array (item :: items) ending, behind) := by
  rw [scanArray, skipBlanks_append areBlank, skipBlanks_cons solid]
  simp [notEnd, reads, follows]

theorem scanItems_cons
    : scanItems (fuel + 1) depth (',' :: (blanks ++ c :: more))
      = ((item :: items, ending), behind) := by
  rw [scanItems, skipBlanks_cons rfl]
  simp [skipBlanks_append areBlank, skipBlanks_cons solid, notEnd, reads, follows]

end Items

section Members

variable {text : List Char} {members : List (Except Fault String × Written)}
  (reads : scanMember fuel depth text = ((members, ending), behind))

include areBlank reads

theorem scanObject_cons
    : scanObject (fuel + 1) depth (blanks ++ '"' :: text) = (.object members ending, behind) := by
  rw [scanObject, skipBlanks_append areBlank, skipBlanks_cons rfl]
  simp [reads]

theorem scanMembers_cons
    : scanMembers (fuel + 1) depth (',' :: (blanks ++ '"' :: text))
      = ((members, ending), behind) := by
  rw [scanMembers, skipBlanks_cons rfl]
  simp [skipBlanks_append areBlank, @skipBlanks_cons '"' rfl, reads]

end Members

/-- A member is its name, a colon, and its value. -/
theorem scanMember_eq (layout : Layout) (name : String) {text : List Char} {value : Written}
    {members : List (Except Fault String × Written)}
    (reads : scanValue (fuel + 1) depth text = (value, some rest))
    (follows : scanMembers (fuel + 1) depth rest = ((members, ending), behind))
    : scanMember (fuel + 2) depth
        (name.toList.flatMap escapeChar ++ '"' :: (layout.colon ++ text))
      = (((.ok name, value) :: members, ending), behind) := by
  obtain ⟨blanks, isColon, areBlank⟩ := layout.colon_eq
  rw [scanMember, scanQuoted_flatMap_escapeChar, isColon, List.cons_append]
  simp [@skipBlanks_cons ':' rfl, scanValue_append areBlank, reads, follows]

end Steps

-----------------------------------------------------------------------------------------
-- Whole values
-----------------------------------------------------------------------------------------

/-- A value that a reader at a depth takes off the front of a text, given fuel for its length. -/
def ReadsBack (layout : Layout) (depth : Nat) (value : Json) : Prop :=
  ∀ level rest fuel,
    3 * (render layout level value).length ≤ fuel
    → scanValue fuel depth (render layout level value ++ rest) = (value.written, some rest)

variable {layout : Layout} {depth : Nat}

theorem scanItems_renderItems {items : List Json}
    (plain : ∀ item ∈ items, Plain depth item)
    (readBack : ∀ item ∈ items, ReadsBack layout depth item) (level : Nat) (rest : List Char)
    (fuel : Nat) (enough : 3 * (renderItems layout level items).length ≤ fuel)
    : scanItems fuel depth (renderItems layout level items ++ rest)
      = ((writtenItems items, .closed), some rest) := by
  induction items generalizing fuel with
  | nil =>
      rw [renderItems, List.length_append, List.length_singleton] at enough
      obtain ⟨fuel, rfl⟩ : ∃ more, fuel = more + 1 := ⟨fuel - 1, by omega⟩
      rw [renderItems, List.append_assoc]
      exact scanItems_nil (layout.isBlank_of_mem_lineBreak level)
  | cons item items ih =>
      obtain ⟨plainItem, plainItems⟩ := List.forall_mem_cons.mp plain
      obtain ⟨itemBack, itemsBack⟩ := List.forall_mem_cons.mp readBack
      simp only [renderItems, List.length_append, List.length_cons] at enough
      obtain ⟨fuel, rfl⟩ : ∃ more, fuel = more + 1 := ⟨fuel - 1, by omega⟩
      obtain ⟨c, more, begins, solid, notEnd⟩ := plainItem.render_cons layout (level + 1)
      have reads := itemBack (level + 1) (renderItems layout level items ++ rest) fuel (by omega)
      have follows := ih plainItems itemsBack fuel (by omega)
      rw [begins, List.cons_append] at reads
      rw [renderItems, begins, writtenItems]
      simpa only [List.cons_append, List.append_assoc] using
        scanItems_cons (layout.isBlank_of_mem_lineBreak _) solid notEnd reads follows

theorem scanMembers_renderMembers {members : List (String × Json)}
    (readBack : ∀ member ∈ members, ReadsBack layout depth member.2) (level : Nat)
    (rest : List Char) (fuel : Nat)
    (enough : 3 * (renderMembers layout level members).length ≤ fuel)
    : scanMembers fuel depth (renderMembers layout level members ++ rest)
      = ((writtenMembers members, .closed), some rest) := by
  induction members generalizing fuel with
  | nil =>
      rw [renderMembers, List.length_append, List.length_singleton] at enough
      obtain ⟨fuel, rfl⟩ : ∃ more, fuel = more + 1 := ⟨fuel - 1, by omega⟩
      rw [renderMembers, List.append_assoc]
      exact scanMembers_nil (layout.isBlank_of_mem_lineBreak level)
  | cons member members ih =>
      obtain ⟨valueBack, membersBack⟩ := List.forall_mem_cons.mp readBack
      simp only [renderMembers, List.length_append, List.length_cons] at enough
      obtain ⟨fuel, rfl⟩ : ∃ more, fuel = more + 3 := ⟨fuel - 3, by omega⟩
      have reads := valueBack (level + 1) (renderMembers layout level members ++ rest) (fuel + 1)
        (by omega)
      have follows := ih membersBack (fuel + 1) (by omega)
      rw [renderMembers, writtenMembers]
      simpa only [renderString, List.cons_append, List.append_assoc, List.nil_append] using
        scanMembers_cons (layout.isBlank_of_mem_lineBreak _)
          (scanMember_eq layout member.1 reads follows)

theorem Plain.exists_fuel {value : Json} (plain : Plain depth value) {level fuel : Nat}
    (enough : 3 * (render layout level value).length ≤ fuel)
    : ∃ more, fuel = more + 3 := by
  obtain ⟨c, rest, begins, -⟩ := plain.render_cons layout level
  rw [begins, List.length_cons] at enough
  exact ⟨fuel - 3, by omega⟩

theorem readsBack_array {items : List Json} (shallow : depth < maxDepth)
    (plain : ∀ item ∈ items, Plain (depth + 1) item)
    (readBack : ∀ item ∈ items, ReadsBack layout (depth + 1) item)
    : ReadsBack layout depth (array items) := by
  intro level rest fuel enough
  obtain ⟨fuel, rfl⟩ := (Plain.array shallow plain).exists_fuel enough
  cases items with
  | nil =>
      rw [render]
      refine scanValue_array shallow ?_
      rw [scanArray]
      rfl
  | cons item items =>
      obtain ⟨plainItem, plainItems⟩ := List.forall_mem_cons.mp plain
      obtain ⟨itemBack, itemsBack⟩ := List.forall_mem_cons.mp readBack
      simp only [render, List.length_append, List.length_cons] at enough
      obtain ⟨c, more, begins, solid, notEnd⟩ := plainItem.render_cons layout (level + 1)
      have reads := itemBack (level + 1) (renderItems layout level items ++ rest) (fuel + 1)
        (by omega)
      have follows := scanItems_renderItems plainItems itemsBack level rest (fuel + 1) (by omega)
      rw [begins, List.cons_append] at reads
      rw [render, begins, written, writtenItems]
      simpa only [List.cons_append, List.append_assoc] using scanValue_array shallow
        (scanArray_cons (layout.isBlank_of_mem_lineBreak _) solid notEnd reads follows)

theorem readsBack_object {members : List (String × Json)} (shallow : depth < maxDepth)
    (plain : ∀ member ∈ members, Plain (depth + 1) member.2)
    (readBack : ∀ member ∈ members, ReadsBack layout (depth + 1) member.2)
    : ReadsBack layout depth (object members) := by
  intro level rest fuel enough
  obtain ⟨fuel, rfl⟩ := (Plain.object shallow plain).exists_fuel enough
  cases members with
  | nil =>
      rw [render]
      refine scanValue_object shallow ?_
      rw [scanObject]
      rfl
  | cons member members =>
      obtain ⟨valueBack, membersBack⟩ := List.forall_mem_cons.mp readBack
      simp only [render, renderString, List.length_append, List.length_cons] at enough
      obtain ⟨fuel, rfl⟩ : ∃ more, fuel = more + 1 := ⟨fuel - 1, by omega⟩
      have reads := valueBack (level + 1) (renderMembers layout level members ++ rest) (fuel + 1)
        (by omega)
      have follows := scanMembers_renderMembers membersBack level rest (fuel + 1) (by omega)
      rw [render, written, writtenMembers]
      simpa only [renderString, List.cons_append, List.append_assoc, List.nil_append] using
        scanValue_object shallow (scanObject_cons (layout.isBlank_of_mem_lineBreak _)
          (scanMember_eq layout member.1 reads follows))

/-- A value without numbers is read back, by induction on its parts. -/
theorem Plain.readsBack {value : Json} (plain : Plain depth value)
    : ReadsBack layout depth value := by
  induction plain with
  | @null depth =>
      intro level rest fuel enough
      obtain ⟨fuel, rfl⟩ := (@Plain.null depth).exists_fuel enough
      simp [render, scanValue, @skipBlanks_cons 'n' rfl, scanWord, written]
  | @bool depth b =>
      intro level rest fuel enough
      obtain ⟨fuel, rfl⟩ := (@Plain.bool depth b).exists_fuel enough
      cases b
      · simp [render, scanValue, @skipBlanks_cons 'f' rfl, scanWord, written]
      · simp [render, scanValue, @skipBlanks_cons 't' rfl, scanWord, written]
  | @string depth text =>
      intro level rest fuel enough
      obtain ⟨fuel, rfl⟩ := (@Plain.string depth text).exists_fuel enough
      simp [render, renderString, scanValue, @skipBlanks_cons '"' rfl, scanString,
        scanQuoted_flatMap_escapeChar, written]
  | array shallow within ih => exact readsBack_array shallow within ih
  | object shallow within ih => exact readsBack_object shallow within ih

-----------------------------------------------------------------------------------------
-- Whole texts
-----------------------------------------------------------------------------------------

mutual

/-- A value with the members of its objects in order of names, of repeated ones the last. -/
def sorted : Json → Json
  | null => null
  | bool b => bool b
  | number n => number n
  | string text => string text
  | array items => array (sortedItems items)
  | object members => object (sortMembers (sortedMembers members))

/-- Items with the members of their objects in order of names. -/
def sortedItems : List Json → List Json
  | [] => []
  | item :: items => sorted item :: sortedItems items

/-- Members in their own order, with those of their values in order of names. -/
def sortedMembers : List (String × Json) → List (String × Json)
  | [] => []
  | (name, value) :: members => (name, sorted value) :: sortedMembers members

end

mutual

/-- What is written of a value is that value, by induction on its parts. -/
theorem toJson_written (value : Json) : value.written.toJson = .ok value.sorted := by
  cases value with
  | null | bool | number | string => rfl
  | array items =>
      rw [written, toJson, toJsonItems_writtenItems items, sorted]
      rfl
  | object members =>
      rw [written, toJson, toJsonMembers_writtenMembers members, sorted]
      rfl

theorem toJsonItems_writtenItems (items : List Json)
    : toJsonItems (writtenItems items) = .ok (sortedItems items) := by
  cases items with
  | nil => rfl
  | cons item items =>
      rw [writtenItems, toJsonItems, toJson_written item, toJsonItems_writtenItems items,
        sortedItems]
      rfl

theorem toJsonMembers_writtenMembers (members : List (String × Json))
    : toJsonMembers (writtenMembers members) = .ok (sortedMembers members) := by
  cases members with
  | nil => rfl
  | cons member members =>
      rw [writtenMembers, toJsonMembers, toJson_written member.2,
        toJsonMembers_writtenMembers members, sortedMembers]
      rfl

end

/-- The form of a written value is found again, with nothing behind it. -/
theorem Plain.written_ofText_toText {value : Json} (plain : Plain 0 value) (layout : Layout)
    : Written.ofText (value.toText layout) = (value.written, none) := by
  have readsBack : ReadsBack layout 0 value := plain.readsBack
  have reads := readsBack 0 [] (3 * (render layout 0 value).length + 3) (by omega)
  rw [List.append_nil] at reads
  simp only [Written.ofText, toText, String.toList_ofList, reads]
  rfl

/-- The layout makes no difference to what a written value is read as. -/
theorem Plain.json_ofText_toText {value : Json} (plain : Plain 0 value) (layout : Layout)
    : Json.ofText (value.toText layout) = .ok value.sorted := by
  simp only [Json.ofText, plain.written_ofText_toText, toJson_written]
  rfl

-----------------------------------------------------------------------------------------
-- The compact layout
-----------------------------------------------------------------------------------------

/-- A text without characters below the space, among which the line breaks are. -/
def HasNoControl (text : List Char) : Prop := ∀ c ∈ text, ¬c.toNat < 0x20

@[simp]
theorem hasNoControl_nil : HasNoControl [] := by simp [HasNoControl]

@[simp]
theorem hasNoControl_cons {c : Char} {text : List Char}
    : HasNoControl (c :: text) ↔ ¬c.toNat < 0x20 ∧ HasNoControl text :=
  List.forall_mem_cons

@[simp]
theorem hasNoControl_append {front back : List Char}
    : HasNoControl (front ++ back) ↔ HasNoControl front ∧ HasNoControl back :=
  List.forall_mem_append

theorem hasNoControl_renderString (text : String) : HasNoControl (renderString text) :=
  fun _ => not_lt_of_mem_renderString

theorem hasNoControl_renderItems {items : List Json} (level : Nat)
    (free : ∀ item ∈ items, HasNoControl (render .compact (level + 1) item))
    : HasNoControl (renderItems .compact level items) := by
  induction items with
  | nil => simp [renderItems, Layout.lineBreak]
  | cons item items ih =>
      obtain ⟨freeItem, freeItems⟩ := List.forall_mem_cons.mp free
      simp [renderItems, Layout.lineBreak, freeItem, ih freeItems]

theorem hasNoControl_renderMembers {members : List (String × Json)} (level : Nat)
    (free : ∀ member ∈ members, HasNoControl (render .compact (level + 1) member.2))
    : HasNoControl (renderMembers .compact level members) := by
  induction members with
  | nil => simp [renderMembers, Layout.lineBreak]
  | cons member members ih =>
      obtain ⟨freeMember, freeMembers⟩ := List.forall_mem_cons.mp free
      simp [renderMembers, Layout.lineBreak, Layout.colon, hasNoControl_renderString, freeMember,
        ih freeMembers]

/-- The compact layout adds no line break to a value, and escapes those in its texts. -/
theorem Plain.hasNoControl_render {value : Json} (plain : Plain depth value) (level : Nat)
    : HasNoControl (render .compact level value) := by
  induction plain generalizing level with
  | null => simp [render]
  | @bool _ b => cases b <;> simp [render]
  | string => exact hasNoControl_renderString _
  | @array _ items _ _ ih =>
      cases items with
      | nil => simp [render]
      | cons item items =>
          obtain ⟨freeItem, freeItems⟩ := List.forall_mem_cons.mp ih
          have free := hasNoControl_renderItems level fun item isMember =>
            freeItems item isMember (level + 1)
          simp [render, Layout.lineBreak, freeItem, free]
  | @object _ members _ _ ih =>
      cases members with
      | nil => simp [render]
      | cons member members =>
          obtain ⟨freeMember, freeMembers⟩ := List.forall_mem_cons.mp ih
          have free := hasNoControl_renderMembers level fun member isMember =>
            freeMembers member isMember (level + 1)
          simp [render, Layout.lineBreak, Layout.colon, hasNoControl_renderString, freeMember, free]

end SchemaDoc.Json
