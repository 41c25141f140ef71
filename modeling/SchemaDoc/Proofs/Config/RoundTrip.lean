import SchemaDoc.Config.Writing
import SchemaDoc.Proofs.Config.Expansion
import SchemaDoc.Proofs.Toml.Document
import SchemaDoc.Proofs.Toml.Line

/-! Every configuration comes back from its text, unless a variable is set that the text has a
placeholder for. Sections are read back line by line, and records from the tables they become.
-/

namespace SchemaDoc

open Shape Toml

namespace Config

-----------------------------------------------------------------------------------------
-- Placeholders
-----------------------------------------------------------------------------------------

/-- The names behind an opening brace that is closed somewhere. -/
theorem placeholdersFrom_open {c : Char} {rest behind : List Char}
    (closed : rest.dropWhile (· ≠ '\x7d') = c :: behind)
    : placeholdersFrom ('$' :: '\x7b' :: rest)
      = if (rest.takeWhile (· ≠ '\x7d')).isEmpty then placeholdersFrom ('\x7b' :: rest)
        else String.ofList (rest.takeWhile (· ≠ '\x7d')) :: placeholdersFrom behind := by
  rw [placeholdersFrom]
  split
  next _ found found' =>
    obtain ⟨rfl, rfl⟩ := List.cons.inj (found'.symm.trans closed)
    rfl
  next notClosed => cases notClosed.symm.trans closed

/-- A text stays as it is when no placeholder in it names a variable that is set. -/
theorem expandFrom_eq_self {environment : Environment} {text : List Char}
    (unset : ∀ name ∈ placeholdersFrom text, environment name = none)
    : expandFrom environment text = text := by
  fun_induction expandFrom environment text with
  | case1 => rfl
  | case2 rest name c behind closed isEmpty ih =>
      rw [placeholdersFrom_open closed, if_pos isEmpty] at unset
      rw [ih unset]
  | case3 rest name c behind closed notEmpty placeholder ih =>
      rw [placeholdersFrom_open closed, if_neg notEmpty, List.forall_mem_cons] at unset
      obtain ⟨unsetName, unsetBehind⟩ := unset
      have whole : rest = name ++ '\x7d' :: behind := eq_append_of_dropWhile_ne closed
      rw [unsetName, ih unsetBehind, whole]
      simp [placeholder]
  | case4 => rfl
  | case5 c rest noPlaceholder ih =>
      rw [placeholdersFrom] at unset
      · rw [ih unset]
      · exact noPlaceholder

-----------------------------------------------------------------------------------------
-- Settings
-----------------------------------------------------------------------------------------

/-- A value of a document is the one that a setting writes. -/
def Setting.Holds : Setting → Node → Prop
  | text content, node => ∃ place, node = .string place content
  | flag b, node => ∃ place, node = .boolean place b

theorem Setting.denotes_write (setting : Setting) : Denotes setting.write setting.Holds := by
  cases setting with
  | text content => exact denotes_writeQuoted content
  | flag b =>
      cases b with
      | false => exact denotes_false
      | true => exact denotes_true

/-- An entry keeps what a named setting writes. -/
def Keeps (setting : String × Setting) (entry : Toml.Entry) : Prop :=
  entry.path = [] ∧ entry.key.name = setting.1 ∧ setting.2.Holds entry.node

/-- Named settings are read line by line, by induction on the settings. -/
theorem scanLines_settings {settings : List (String × Setting)}
    (bare : ∀ setting ∈ settings, IsBareKey setting.1) (rest : List Char)
    : ∃ entries, List.Forall₂ Keeps settings entries
        ∧ scanLines ((settings.flatMap fun (name, setting) => writeLine name setting) ++ rest)
          = (scanLines rest).map (entries.map Statement.entry ++ ·) := by
  induction settings with
  | nil => exact ⟨[], .nil, by simp⟩
  | cons setting settings ih =>
      obtain ⟨bareName, bareNames⟩ := List.forall_mem_cons.mp bare
      obtain ⟨entries, keep, reads⟩ := ih bareNames
      obtain ⟨entry, undotted, named, holds, readsLine⟩ := scanLine_entry bareName
        setting.2.denotes_write
        ((settings.flatMap fun (name, setting) => writeLine name setting) ++ rest)
      refine ⟨entry :: entries, .cons ⟨undotted, named, holds⟩ keep, ?_⟩
      have line := scanLines_eq readsLine (by simp; omega)
      rw [reads] at line
      simpa [writeLine, Function.comp_def] using line

/-- A plain section keeps what a named section writes. -/
structure SectionKeeps (settings : String × List (String × Setting)) (written : Section) : Prop
    extends written.IsPlain where
  named : written.header.key.name = settings.1
  entries : List.Forall₂ Keeps settings.2 written.entries

/-- Names that need no quotes, none of them given twice. -/
structure AreKeys (names : List String) : Prop where
  bare : ∀ name ∈ names, IsBareKey name
  distinct : names.Nodup

theorem scanLines_writeSection {name : String} (bare : IsBareKey name)
    {settings : List (String × Setting)} (keys : AreKeys (settings.map Prod.fst))
    (rest : List Char)
    : ∃ written, SectionKeeps (name, settings) written
        ∧ scanLines (writeSection name settings ++ rest)
          = (scanLines rest).map (written.statements ++ ·) := by
  obtain ⟨entries, keep, reads⟩ :=
    scanLines_settings (List.forall_mem_map.mp keys.bare) rest
  obtain ⟨header, path, named, single, readsLine⟩ := scanLine_header bare
    ((settings.flatMap fun (name, setting) => writeLine name setting) ++ rest)
  have undotted : ∀ entry ∈ entries, entry.path = [] :=
    forall_mem_of_forall₂ keep fun _ _ keeps => keeps.1
  have distinct : (entries.map (·.key.name)).Nodup := by
    rw [← map_eq_of_forall₂ keep fun _ _ keeps => keeps.2.1.symm]
    exact keys.distinct
  refine ⟨⟨header, entries⟩, ⟨⟨path, single, undotted, distinct⟩, named, keep⟩, ?_⟩
  have line := scanLines_eq readsLine (by simp; omega)
  rw [reads] at line
  simpa [writeSection, Section.statements, Function.comp_def] using line

/-- Sections are read one by one, by induction on the sections. -/
theorem scanLines_sections {sections : List (String × List (String × Setting))}
    (bare : ∀ settings ∈ sections, IsBareKey settings.1)
    (keys : ∀ settings ∈ sections, AreKeys (settings.2.map Prod.fst))
    : ∃ written, List.Forall₂ SectionKeeps sections written
        ∧ scanLines (['\n'].intercalate
            (sections.map fun (name, settings) => writeSection name settings))
          = some (written.flatMap Section.statements) := by
  induction sections with
  | nil => exact ⟨[], .nil, scanLines_nil⟩
  | cons first sections ih =>
      obtain ⟨bareFirst, bareRest⟩ := List.forall_mem_cons.mp bare
      obtain ⟨keysFirst, keysRest⟩ := List.forall_mem_cons.mp keys
      obtain ⟨written, keep, reads⟩ := ih bareRest keysRest
      cases sections with
      | nil =>
          cases keep
          obtain ⟨written, keepsFirst, readsFirst⟩ := scanLines_writeSection bareFirst keysFirst []
          refine ⟨[written], .cons keepsFirst .nil, ?_⟩
          simpa [scanLines_nil] using readsFirst
      | cons second sections =>
          obtain ⟨first, keepsFirst, readsFirst⟩ := scanLines_writeSection bareFirst keysFirst
            ('\n' :: ['\n'].intercalate
              ((second :: sections).map fun (name, settings) => writeSection name settings))
          refine ⟨first :: written, .cons keepsFirst keep, ?_⟩
          rw [scanLines_eq (scanLine_newline _) (Nat.lt_succ_self _), reads] at readsFirst
          rw [List.map_cons, List.map_cons, List.intercalate_cons_cons, List.append_assoc,
            List.singleton_append, List.flatMap_cons]
          exact readsFirst

-----------------------------------------------------------------------------------------
-- Sections
-----------------------------------------------------------------------------------------

/-- An entry of a table is what a named setting writes. -/
def IsSetting (setting : String × Setting) (entry : Key × Node) : Prop :=
  entry.1.name = setting.1 ∧ setting.2.Holds entry.2

/-- An entry of a document is a table of what the settings of a named section write. -/
def IsSection (settings : String × List (String × Setting)) (entry : Key × Node) : Prop :=
  entry.1.name = settings.1
    ∧ ∃ place entries, entry.2 = .table .header place entries
      ∧ List.Forall₂ IsSetting settings.2 entries

theorem SectionKeeps.isSection {settings : String × List (String × Setting)} {written : Section}
    (keeps : SectionKeeps settings written) {entry : Key × Node} (gives : written.Gives entry)
    : IsSection settings entry := by
  obtain ⟨place, rfl⟩ := gives
  refine ⟨keeps.named, place, _, rfl, ?_⟩
  exact List.forall₂_map_right_iff.mpr (keeps.entries.imp fun _ _ keeps => keeps.2)

section Records

variable {entries : List (Key × Node)} (origin : Origin) (place : Option Place)

attribute [local simp] RecordShape.ofItems RecordShape.fill_ofReader RecordShape.fill_nil
  Slot.optional Node.asText Node.asFlag Except.bind

theorem asRecord_document {document : DocumentConfig}
    (hold : List.Forall₂ IsSetting
      [("name", .text document.name), ("desc", .text document.description)] entries)
    : Node.asRecord DocumentConfig.shape (.table origin place entries) = .ok document := by
  rcases hold with _ | ⟨⟨named, _, isName⟩, _ | ⟨⟨named', _, isDescription⟩, ⟨⟩⟩⟩
  refine asRecord_table (by decide) ?_ ?_ origin place
  · simp [named, named', DocumentConfig.shape, RecordShape.slotNames, Slot.ofReader]
  · simp [isName, isDescription, DocumentConfig.shape]

theorem asRecord_driver {driver : Driver}
    (hold : List.Forall₂ IsSetting
      [("name", .text driver.name), ("database_version", .text driver.databaseVersion)] entries)
    : Node.asRecord Driver.configShape (.table origin place entries) = .ok driver := by
  rcases hold with _ | ⟨⟨named, _, isName⟩, _ | ⟨⟨named', _, isVersion⟩, ⟨⟩⟩⟩
  refine asRecord_table (by decide) ?_ ?_ origin place
  · simp [named, named', Driver.configShape, RecordShape.slotNames, Slot.ofReader]
  · simp [isName, isVersion, Driver.configShape]

theorem asRecord_lexer {isStrict : Bool}
    (hold : List.Forall₂ IsSetting [("strict", .flag isStrict)] entries)
    : Node.asRecord lexerShape (.table origin place entries) = .ok isStrict := by
  rcases hold with _ | ⟨⟨named, _, isFlag⟩, ⟨⟩⟩
  refine asRecord_table (by decide) ?_ ?_ origin place
  · simp [named, lexerShape, RecordShape.slotNames, Slot.ofReader]
  · simp [isFlag, lexerShape]

theorem asRecord_input {input : InputConfig}
    (hold : List.Forall₂ IsSetting
      [("path", .text input.path), ("format", .text input.format.name)] entries)
    : Node.asRecord InputConfig.shape (.table origin place entries) = .ok input := by
  rcases hold with _ | ⟨⟨named, _, isPath⟩, _ | ⟨⟨named', place', isFormat⟩, ⟨⟩⟩⟩
  have format (place : Place)
      : Node.asVariant InputFormat.variants (.string place input.format.name)
        = .ok input.format := by
    cases input.format <;> rfl
  refine asRecord_table (by decide) ?_ ?_ origin place
  · simp [named, named', InputConfig.shape, RecordShape.slotNames, Slot.ofReader]
  · simp [isPath, isFormat, format, InputConfig.shape]

theorem asRecord_output {output : OutputConfig}
    (hold : List.Forall₂ IsSetting
      [("path", .text output.path), ("pretty", .flag output.isPretty)] entries)
    : Node.asRecord OutputConfig.shape (.table origin place entries) = .ok output := by
  rcases hold with _ | ⟨⟨named, _, isPath⟩, _ | ⟨⟨named', _, isPretty⟩, ⟨⟩⟩⟩
  refine asRecord_table (by decide) ?_ ?_ origin place
  · simp [named, named', OutputConfig.shape, RecordShape.slotNames, Slot.ofReader]
  · simp [isPath, isPretty, OutputConfig.shape]

theorem asRecord_sections {config : Config}
    (hold : List.Forall₂ IsSection config.sections entries)
    : Node.asRecord shape (.table origin place entries) = .ok config := by
  rcases hold with _ | ⟨⟨ofDocument, _, _, isDocument, document⟩,
    _ | ⟨⟨ofDriver, _, _, isDriver, driver⟩,
    _ | ⟨⟨ofLexer, _, _, isLexer, lexer⟩,
    _ | ⟨⟨ofInput, _, _, isInput, input⟩,
    _ | ⟨⟨ofOutput, _, _, isOutput, output⟩, ⟨⟩⟩⟩⟩⟩⟩
  refine asRecord_table (by decide) ?_ ?_ origin place
  · simp [ofDocument, ofDriver, ofLexer, ofInput, ofOutput, shape, RecordShape.slotNames,
      Slot.ofReader]
  · simp [isDocument, isDriver, isLexer, isInput, isOutput, shape,
      asRecord_document _ _ document, asRecord_driver _ _ driver, asRecord_lexer _ _ lexer,
      asRecord_input _ _ input, asRecord_output _ _ output]

end Records

-----------------------------------------------------------------------------------------
-- Whole configurations
-----------------------------------------------------------------------------------------

theorem areKeys_sections (config : Config)
    : AreKeys (config.sections.map Prod.fst)
      ∧ ∀ settings ∈ config.sections, AreKeys (settings.2.map Prod.fst) := by
  have bare : IsBareKey "name" ∧ IsBareKey "desc" ∧ IsBareKey "database_version"
      ∧ IsBareKey "strict" ∧ IsBareKey "path" ∧ IsBareKey "format" ∧ IsBareKey "pretty" := by decide
  refine ⟨⟨?_, by simp [sections]⟩, ?_⟩
  · simp only [sections, List.map_cons, List.map_nil]
    decide
  · simp only [sections, List.forall_mem_cons]
    exact ⟨⟨by simp [bare], by simp⟩, ⟨by simp [bare], by simp⟩, ⟨by simp [bare], by simp⟩,
      ⟨by simp [bare], by simp⟩, ⟨by simp [bare], by simp⟩, by simp⟩

/-- The text of a configuration, with nothing in it replaced, is read as that configuration. -/
theorem ofToml_toToml (config : Config) : ofToml config.toToml = .ok config := by
  obtain ⟨sectionKeys, keys⟩ := config.areKeys_sections
  obtain ⟨written, keep, reads⟩ :=
    scanLines_sections (List.forall_mem_map.mp sectionKeys.bare) keys
  have plain : ∀ section' ∈ written, section'.IsPlain :=
    forall_mem_of_forall₂ keep fun _ _ keeps => keeps.toIsPlain
  have distinct : (written.map (·.header.key.name)).Nodup := by
    rw [← map_eq_of_forall₂ keep fun _ _ keeps => keeps.named.symm]
    exact sectionKeys.distinct
  have noMark : (['\n'].intercalate
      (config.sections.map fun (name, settings) => writeSection name settings)).head?
        ≠ some byteOrderMark := by
    simp [sections, writeSection, List.intercalate_cons_cons, byteOrderMark]
  obtain ⟨root, isDocument, give⟩ := documentOf?_eq noMark reads plain distinct
  have hold : List.Forall₂ IsSection config.sections root.entries :=
    forall₂_comp keep give fun _ _ _ keeps gives => keeps.isSection gives
  have record := asRecord_sections root.origin root.place hold
  simp only [ofToml, toToml, isDocument, Table.toNode, record]
  rfl

/-- Every configuration comes back from its text in an environment that sets no variable of
which the text has a placeholder.
-/
theorem ofText_toToml (config : Config) (environment : Environment)
    (unset : ∀ name ∈ placeholders config.toToml, environment name = none)
    : ofText environment config.toToml = .ok config := by
  rw [ofText, expand, expandFrom_eq_self unset, String.ofList_toList]
  exact config.ofToml_toToml

/-- Texts of all four styles come back, with a placeholder that names no variable. -/
theorem ofText_toToml_quoted
    : let config : Config :=
        { document := ⟨"it's \"quoted\"", "# first\nsecond \\ \x7f"⟩
          driver := ⟨"$\x7bDRIVER\x7d", "'''"⟩
          isStrict := true
          input := ⟨"C:\\schemas\\\"main\"", .description⟩
          output := ⟨"", false⟩ }
      let environment : Environment := fun name => if name = "HOME" then some "/root" else none
      (∀ name ∈ placeholders config.toToml, environment name = none)
        ∧ ofText environment config.toToml = .ok config := by
  intro config environment
  have unset : ∀ name ∈ placeholders config.toToml, environment name = none := by
    rw [placeholders, toToml, String.toList_ofList]
    decide +kernel
  exact ⟨unset, ofText_toToml config environment unset⟩

end Config

end SchemaDoc
