import SchemaDoc.Proofs.Toml.Quoted
import SchemaDoc.Toml.Line

/-! How plain lines of TOML are read: empty ones, headers with a bare name, and bare names with
a value. Places in the text are left open, as nothing is read from them.
-/

namespace SchemaDoc.Toml

-----------------------------------------------------------------------------------------
-- Names
-----------------------------------------------------------------------------------------

/-- A name that needs no quotes. -/
def IsBareKey (name : String) : Prop :=
  name.toList ≠ [] ∧ ∀ c ∈ name.toList, isBareKeyPart c = true

instance (name : String) : Decidable (IsBareKey name) :=
  decidable_of_iff (name.toList.isEmpty = false ∧ name.toList.all isBareKeyPart = true)
    (by simp [IsBareKey])

/-- No character of a name without quotes means anything else at the start of a line. -/
theorem of_isBareKeyPart {c : Char} (isPart : isBareKeyPart c = true)
    : isBlank c = false ∧ c ∉ ['"', '\x27', '#', '\n', '\r', '['] := by
  refine ⟨?_, fun isMark => ?_⟩
  · cases blank : isBlank c with
    | false => rfl
    | true =>
        simp only [isBlank, Bool.or_eq_true, beq_iff_eq] at blank
        rcases blank with rfl | rfl <;> exact absurd isPart (by decide)
  · simp only [List.mem_cons, List.not_mem_nil, or_false] at isMark
    rcases isMark with rfl | rfl | rfl | rfl | rfl | rfl <;> exact absurd isPart (by decide)

section Names

variable {name : String} (bare : IsBareKey name) {behind rest : List Char}

include bare

theorem IsBareKey.toList_eq_cons
    : ∃ c more, name.toList = c :: more ∧ isBareKeyPart c = true := by
  obtain ⟨notEmpty, areParts⟩ := bare
  cases isName : name.toList with
  | nil => exact absurd isName notEmpty
  | cons c more => exact ⟨c, more, rfl, areParts c (isName ▸ List.mem_cons_self)⟩

theorem scanName_bareKey (ends : ∀ c ∈ behind.head?, isBareKeyPart c = false)
    : scanName (name.toList ++ behind) = some (name, behind) := by
  have noMore : behind.takeWhile isBareKeyPart = [] ∧ behind.dropWhile isBareKeyPart = behind := by
    cases behind with
    | nil => exact ⟨rfl, rfl⟩
    | cons c behind => simp [ends c rfl]
  have takes : (name.toList ++ behind).takeWhile isBareKeyPart = name.toList := by
    rw [List.takeWhile_append_of_pos bare.2, noMore.1, List.append_nil]
  have drops : (name.toList ++ behind).dropWhile isBareKeyPart = behind := by
    rw [List.dropWhile_append_of_pos bare.2, noMore.2]
  obtain ⟨c, more, isName, isPart⟩ := bare.toList_eq_cons
  have notMark := (of_isBareKeyPart isPart).2
  simp only [List.mem_cons, not_or] at notMark
  have whole : String.ofList (c :: more) = name := by rw [← isName, String.ofList_toList]
  rw [isName] at takes drops ⊢
  rw [List.cons_append] at takes drops ⊢
  simp [scanName, notMark, takes, drops, whole]

/-- A bare name that ends in front of anything but a dot is a whole path. -/
theorem scanPath_bareKey (ends : ∀ c ∈ behind.head?, isBareKeyPart c = false) {c : Char}
    (drops : dropBlanks behind = c :: rest) (notDot : c ≠ '.')
    : ∃ key, key.name = name ∧ scanPath (name.toList ++ behind) = some (([], key), c :: rest) := by
  have solid : dropBlanks (name.toList ++ behind) = name.toList ++ behind := by
    obtain ⟨first, more, isName, isPart⟩ := bare.toList_eq_cons
    simp [isName, dropBlanks, (of_isBareKeyPart isPart).1]
  have reads : scanKey (name.toList ++ behind)
      = some (⟨name, ⟨(name.toList ++ behind).length, behind.length⟩⟩, c :: rest) := by
    simp [scanKey, solid, scanName_bareKey bare ends, drops]
  refine ⟨⟨name, ⟨(name.toList ++ behind).length, behind.length⟩⟩, rfl, ?_⟩
  simp [scanPath, maxDepth, scanDotted, reads, notDot]

end Names

-----------------------------------------------------------------------------------------
-- Values
-----------------------------------------------------------------------------------------

/-- Characters that are read as a value of some kind, wherever a line ends behind them. -/
def Denotes (written : List Char) (kind : Node → Prop) : Prop :=
  (∃ c more, written = c :: more ∧ isBlank c = false)
    ∧ ∀ rest, ∃ node, kind node ∧ ∀ fuel,
        scanValue (fuel + 1) 0 (written ++ '\n' :: rest) = some (node, '\n' :: rest)

theorem denotes_writeQuoted (text : String)
    : Denotes (writeQuoted text) fun node => ∃ place, node = .string place text := by
  obtain ⟨marks, isQuote⟩ := (Style.ofText text.toList).quote_eq_cons
  obtain ⟨more, begins⟩ : ∃ more, writeQuoted text = (Style.ofText text.toList).mark :: more :=
    ⟨_, by simp only [writeQuoted, Style.write, isQuote, List.cons_append]; rfl⟩
  have isMark
      : (Style.ofText text.toList).mark = '"' ∨ (Style.ofText text.toList).mark = '\x27' := by
    rw [Style.mark]
    split <;> simp
  refine ⟨⟨_, more, begins, ?_⟩, fun rest => ?_⟩
  · rcases isMark with isMark | isMark <;> (rw [isMark]; rfl)
  · have reads := scanQuoted_writeQuoted text rest
    refine ⟨.string ⟨(writeQuoted text ++ '\n' :: rest).length, ('\n' :: rest).length⟩ text,
      ⟨_, rfl⟩, fun fuel => ?_⟩
    rw [begins, List.cons_append] at reads ⊢
    rcases isMark with isMark | isMark <;>
      (rw [isMark] at reads ⊢; simp [scanValue, reads])

theorem denotes_true
    : Denotes ['t', 'r', 'u', 'e'] fun node => ∃ place, node = .boolean place true :=
  ⟨⟨_, _, rfl, rfl⟩, fun _ => ⟨_, ⟨_, rfl⟩, fun _ => rfl⟩⟩

theorem denotes_false
    : Denotes ['f', 'a', 'l', 's', 'e'] fun node => ∃ place, node = .boolean place false :=
  ⟨⟨_, _, rfl, rfl⟩, fun _ => ⟨_, ⟨_, rfl⟩, fun _ => rfl⟩⟩

-----------------------------------------------------------------------------------------
-- Lines
-----------------------------------------------------------------------------------------

theorem behindLine?_newline (rest : List Char) : behindLine? ('\n' :: rest) = some rest := rfl

theorem scanLine_newline (rest : List Char) : scanLine ('\n' :: rest) = some (none, rest) := rfl

variable {name : String}

/-- A header with a bare name. -/
theorem scanLine_header (bare : IsBareKey name) (rest : List Char)
    : ∃ header : Header, header.path = [] ∧ header.key.name = name ∧ header.isRepeated = false
      ∧ scanLine ('[' :: (name.toList ++ ']' :: '\n' :: rest))
        = some (some (.header header), rest) := by
  obtain ⟨key, named, reads⟩ := @scanPath_bareKey name bare (']' :: '\n' :: rest) ('\n' :: rest)
    (by simp [isBareKeyPart]) ']' rfl (by decide)
  obtain ⟨c, more, isName, isPart⟩ := bare.toList_eq_cons
  have notMark := (of_isBareKeyPart isPart).2
  simp only [List.mem_cons, not_or] at notMark
  have notRepeated
      : ['[', '['].isPrefixOf ('[' :: (name.toList ++ ']' :: '\n' :: rest)) = false := by
    simp [isName, List.isPrefixOf, Ne.symm notMark.2.2.2.2.2.1]
  obtain ⟨place, readsHeader⟩ : ∃ place, scanHeader ('[' :: (name.toList ++ ']' :: '\n' :: rest))
      = some (⟨[], key, place, false⟩, '\n' :: rest) := by
    refine ⟨⟨(name.toList ++ ']' :: '\n' :: rest).length + 1, rest.length + 1⟩, ?_⟩
    simp [scanHeader, notRepeated, reads]
  refine ⟨⟨[], key, place, false⟩, rfl, named, rfl, ?_⟩
  simp [scanLine, dropBlanks, isBlank, readsHeader, behindLine?_newline]

/-- A bare name with a value. -/
theorem scanLine_entry (bare : IsBareKey name) {written : List Char} {kind : Node → Prop}
    (denotes : Denotes written kind) (rest : List Char)
    : ∃ entry : Entry, entry.path = [] ∧ entry.key.name = name ∧ kind entry.node
      ∧ scanLine (name.toList ++ (' ' :: '=' :: ' ' :: (written ++ '\n' :: rest)))
        = some (some (.entry entry), rest) := by
  obtain ⟨⟨first, more, begins, solid⟩, reads⟩ := denotes
  obtain ⟨node, isKind, readsValue⟩ := reads rest
  obtain ⟨key, named, readsPath⟩ := @scanPath_bareKey name bare
    (' ' :: '=' :: ' ' :: (written ++ '\n' :: rest))
    (' ' :: (written ++ '\n' :: rest))
    (by simp [isBareKeyPart]) '=' rfl (by decide)
  have blank : isBlank ' ' = true := rfl
  have drops : dropBlanks (' ' :: (written ++ '\n' :: rest)) = written ++ '\n' :: rest := by
    simp [begins, dropBlanks, blank, solid]
  obtain ⟨c, more, isName, isPart⟩ := bare.toList_eq_cons
  have notMark := (of_isBareKeyPart isPart).2
  simp only [List.mem_cons, not_or] at notMark
  have readsEntry : scanEntry (name.toList ++ (' ' :: '=' :: ' ' :: (written ++ '\n' :: rest)))
      = some (⟨[], key, node⟩, '\n' :: rest) := by
    simp only [scanEntry, readsPath, drops, readsValue, Option.map_some]
  refine ⟨⟨[], key, node⟩, rfl, named, isKind, ?_⟩
  rw [isName, List.cons_append] at readsEntry ⊢
  simp [scanLine, dropBlanks, of_isBareKeyPart isPart, notMark, readsEntry, behindLine?_newline]

theorem scanLines_nil : scanLines [] = some [] := by
  rw [scanLines]
  rfl

/-- A line that is read leaves the lines behind it. -/
theorem scanLines_eq {text rest : List Char} {statement : Option Statement}
    (reads : scanLine text = some (statement, rest)) (shorter : rest.length < text.length)
    : scanLines text = (scanLines rest).map (statement.toList ++ ·) := by
  have notEmpty : text.isEmpty = false := by
    cases text with
    | nil => simp at shorter
    | cons => rfl
  rw [scanLines]
  simp [notEmpty, reads, shorter]

end SchemaDoc.Toml
