import SchemaDoc.Proofs.Command.Reading
import SchemaDoc.Proofs.Config.RoundTrip
import SchemaDoc.Proofs.FileSystem

/-! What commands do to files. Checking leaves them alone, and so does generating until there is
a document to write. What is written then, or by creating a configuration, is one file, together
with directories on the way to it.
-/

namespace SchemaDoc.Command

open MonadSession

-----------------------------------------------------------------------------------------
-- Files that commands write
-----------------------------------------------------------------------------------------

section Writing

variable {session : Session} {path content : String}

/-- A file is written in a directory once that has been made. -/
theorem run_writeIn_of_ok {directory : Option String}
    (wrote : (session.run (writeIn directory path content)).1 = .ok ())
    : let made := (session.files.makeDirectories (directory.getD "")).2
      (made.writeText path content).1 = .ok ()
        ∧ session.run (writeIn directory path content)
          = (.ok (), { session with files := (made.writeText path content).2 }) := by
  intro made
  cases directory with
  | none =>
      have nothing : made = session.files := by
        simp [made, FileSystem.makeDirectories, FileSystem.makeFrom]
      simp only [writeIn, Session.run_bind, Session.run_writeText, Session.run_orFail] at wrote ⊢
      rw [nothing, wrote]
      exact ⟨mapError_eq_ok_iff.mp wrote, rfl⟩
  | some directory =>
      simp only [writeIn, Session.run_bind, Session.run_makeDirectories, Session.run_writeText,
        Session.run_orFail] at wrote ⊢
      cases result : (session.files.makeDirectories directory).1 with
      | error error => simp [result] at wrote
      | ok =>
          simp only [result, mapError_ok] at wrote ⊢
          refine ⟨mapError_eq_ok_iff.mp wrote, ?_⟩
          rw [wrote]
          rfl

/-- A document that has been written to a file changes nothing but that file and directories on
the way to it.
-/
theorem run_writeOutput_of_ok {text : String}
    (wrote : (session.run (writeOutput path text)).1 = .ok ())
    : ∃ files,
        session.run (writeOutput path text) = (.ok (), { session with files })
        ∧ session.files.WroteOnly path (text ++ "\n") files := by
  obtain ⟨written, ran⟩ := run_writeIn_of_ok wrote
  obtain ⟨front, name, split⟩ := FileSystem.exists_parts_eq_concat written
  have below : Path.parts path = Path.parts ((Path.parent? path).getD "") ++ [name] := by
    rw [Path.parts_parent split, split]
  have sameStart := (Path.isAbsolute_parent split).symm
  exact ⟨_, ran, FileSystem.wroteOnly_of_ok below sameStart written⟩

end Writing

-----------------------------------------------------------------------------------------
-- What each command does to files
-----------------------------------------------------------------------------------------

/-- Where a document goes: to the output that the arguments name, and to the configured one if they
name none.
-/
inductive GoesTo (arguments : GenerateArguments) (config : Config) : String → Prop
  | named {path} (isNamed : arguments.output = some path) : GoesTo arguments config path
  | configured (notNamed : arguments.output = none)
    : GoesTo arguments config config.output.path

/-- How a document is laid out: as the arguments ask for it, and as it is configured if they do not
ask.
-/
inductive IsLaidOut (arguments : GenerateArguments) (config : Config) : Json.Layout → Prop
  | indented (isAsked : arguments.isPretty = some true) : IsLaidOut arguments config .indented
  | compact (isAsked : arguments.isPretty = some false) : IsLaidOut arguments config .compact
  | configuredIndented (notAsked : arguments.isPretty = none)
    (isPretty : config.output.isPretty = true)
    : IsLaidOut arguments config .indented
  | configuredCompact (notAsked : arguments.isPretty = none)
    (notPretty : config.output.isPretty = false)
    : IsLaidOut arguments config .compact

section Precedence

variable {arguments : GenerateArguments} {config : Config}

theorem goesTo_iff {path : String}
    : GoesTo arguments config path ↔ outputPath arguments config = path := by
  constructor
  · intro goesTo
    cases goesTo with
    | named isNamed => rw [outputPath, isNamed, Option.getD_some]
    | configured notNamed => rw [outputPath, notNamed, Option.getD_none]
  · rintro rfl
    cases output : arguments.output with
    | none =>
        rw [outputPath, output, Option.getD_none]
        exact .configured output
    | some path =>
        rw [outputPath, output, Option.getD_some]
        exact .named output

theorem isLaidOut_iff {layout : Json.Layout}
    : IsLaidOut arguments config layout ↔ outputLayout arguments config = layout := by
  constructor
  · intro isLaidOut
    cases isLaidOut with
    | indented isAsked | compact isAsked => simp [outputLayout, isAsked]
    | configuredIndented notAsked configured | configuredCompact notAsked configured =>
        simp [outputLayout, notAsked, configured]
  · rintro rfl
    rcases asked : arguments.isPretty with _ | _ | _
    · cases configured : config.output.isPretty with
      | false => simpa [outputLayout, asked, configured] using .configuredCompact asked configured
      | true => simpa [outputLayout, asked, configured] using .configuredIndented asked configured
    · simpa [outputLayout, asked] using .compact asked
    · simpa [outputLayout, asked] using .indented asked

end Precedence

/-- Generating a document touches no more than it should: nothing before there is a document,
nothing for the terminal, and else the output file, with the document in the layout that is asked
for and a line break, and directories on the way to it.
-/
structure GenerateTouches (session : Session) (configPath : Option String)
    (arguments : GenerateArguments) (result : Except CommandError Unit) (after : Session)
    : Prop where
  failed
    : ∀ error,
        (session.run (convertSource configPath arguments.source)).1 = .error error
        → result = .error error ∧ after.files = session.files
  terminal
    : ∀ source document,
        (session.run (convertSource configPath arguments.source)).1 = .ok (source, document)
        → GoesTo arguments source.config "-"
        → after.files = session.files
  file
    : ∀ source document path layout,
        (session.run (convertSource configPath arguments.source)).1 = .ok (source, document)
        → GoesTo arguments source.config path
        → IsLaidOut arguments source.config layout
        → path ≠ "-"
        → result = .ok ()
        → session.files.WroteOnly path (document.toText layout ++ "\n") after.files

/-- Creating a configuration touches no more than it should: nothing where one is, unless it may
be overwritten, and else a file that is read as the standard one and directories on the way to
it.
-/
structure InitTouches (session : Session) (arguments : InitArguments)
    (result : Except CommandError Unit) (after : Session)
    : Prop where
  refused
    : arguments.isForced = false
      → session.files.Holds arguments.path configName
      → result = .error (.configExists (Path.join arguments.path configName))
        ∧ after.files = session.files
  file
    : result = .ok ()
      → session.files.WroteOnly (Path.join arguments.path configName) Config.standard.toToml
          after.files
  loads
    : result = .ok ()
      → ∀ environment said,
          ((Session.mk after.files environment said).run
            (loadConfig (some (Path.join arguments.path configName)))).1
          = .ok .standard

/-- What is generated is touched as it should be. -/
theorem generateDocument_touches (session : Session) (configPath : Option String)
    (arguments : GenerateArguments)
    : GenerateTouches session configPath arguments
        ((session.run (generateDocument configPath arguments)).1.map fun _ => ())
        (session.run (generateDocument configPath arguments)).2 := by
  refine ⟨?_, ?_, ?_⟩
  · intro error failed
    rw [run_generateDocument_of_error session configPath failed]
    exact ⟨rfl, rfl⟩
  · intro source document converted toTerminal
    rw [run_generateDocument_terminal session configPath converted (goesTo_iff.mp toTerminal)]
    rfl
  · intro source document path layout converted goesTo isLaidOut toFile succeeded
    obtain rfl := goesTo_iff.mp goesTo
    obtain rfl := isLaidOut_iff.mp isLaidOut
    rw [run_generateDocument_file session configPath converted toFile] at succeeded ⊢
    obtain ⟨_, reported⟩ := exists_of_map_eq_ok succeeded
    obtain ⟨_, after, wrote, ran⟩ := Session.run_bind_of_ok reported
    obtain ⟨files, wrote', only⟩ := run_writeOutput_of_ok (congrArg Prod.fst wrote)
    obtain ⟨-, rfl⟩ := Prod.mk.inj (wrote.symm.trans wrote')
    rw [ran, Session.run_bind, Session.run_sayAll]
    exact only

/-- The name of a configuration file is a part of paths. -/
theorem isPart_configName : Path.IsPart configName :=
  ⟨by decide, by decide, by decide⟩

/-- The standard configuration is written without placeholders. -/
theorem ofText_standard (environment : Config.Environment)
    : Config.ofText environment Config.standard.toToml = .ok .standard := by
  have noPlaceholder : Config.placeholdersFrom Config.standard.toToml.toList = [] := by
    rw [Config.toToml, String.toList_ofList]
    decide +kernel
  have kept : Config.expandFrom environment Config.standard.toToml.toList
      = Config.standard.toToml.toList := by
    apply Config.expandFrom_eq_self
    simp [noPlaceholder]
  rw [Config.ofText, Config.expand, kept, String.ofList_toList]
  exact Config.ofToml_toToml .standard

theorem run_variablesOf (session : Session) (text : String)
    : ∃ values, session.run (variablesOf text) = (.ok values, session) := by
  rw [variablesOf]
  induction Config.placeholders text with
  | nil => exact ⟨[], rfl⟩
  | cons name names ih =>
      obtain ⟨values, ran⟩ := ih
      rw [List.mapM_cons]
      simp only [Session.run_bind, Session.run_variableValue, Session.run_pure, ran]
      exact ⟨_, rfl⟩

/-- A configuration is loaded from a file whose text gives it, whatever variables are set. -/
theorem run_loadConfig_of_file {session : Session} {path text : String} {config : Config}
    (isThere : session.files.contains path = true)
    (holds : session.files.readText path = .ok text)
    (gives : ∀ environment, Config.ofText environment text = .ok config)
    : (session.run (loadConfig (some path))).1 = .ok config := by
  obtain ⟨values, ran⟩ := run_variablesOf session text
  simp [loadConfig, readConfig, isThere, holds, ran, gives]

/-- A configuration that has been created is all that has changed. -/
theorem wroteOnly_createConfig {session : Session} {arguments : InitArguments}
    (created : (session.run (createConfig arguments)).1 = .ok ())
    : session.files.WroteOnly (Path.join arguments.path configName) Config.standard.toToml
        (session.run (createConfig arguments)).2.files := by
  have below := Path.parts_join isPart_configName arguments.path
  have sameStart := Path.isAbsolute_join isPart_configName arguments.path
  simp only [createConfig, Session.run_bind, Session.run_say, Session.run_exists?] at created ⊢
  split at created
  next => cases created
  next writes =>
    rw [if_neg writes]
    obtain ⟨_, after, wrote, ran⟩ := Session.run_bind_of_ok created
    obtain ⟨written, wrote'⟩ := run_writeIn_of_ok (congrArg Prod.fst wrote)
    obtain ⟨-, rfl⟩ := Prod.mk.inj (wrote.symm.trans wrote')
    rw [ran, Session.run_sayAll]
    exact FileSystem.wroteOnly_of_ok below sameStart written

theorem createConfig_touches (session : Session) (arguments : InitArguments)
    : InitTouches session arguments (session.run (createConfig arguments)).1
        (session.run (createConfig arguments)).2 := by
  refine ⟨?_, wroteOnly_createConfig, ?_⟩
  · intro notForced holds
    have isThere := holds.contains_join isPart_configName (by decide)
    simp [createConfig, isThere, notForced, Session.saying]
  · intro created environment said
    have wrote := wroteOnly_createConfig created
    have hasText := Path.join_ne_empty isPart_configName arguments.path
    have plain := Path.endsInDirectory_join isPart_configName arguments.path
    exact run_loadConfig_of_file (wrote.contains_eq hasText plain)
      (wrote.readText_eq hasText plain) ofText_standard

/-- Commands touch no more files than they should, whatever they are asked for and whatever is
there before.
-/
theorem commands_touch_only (session : Session) (configPath : Option String) (isVerbose : Bool)
    : let runOf (command : Command) := session.run (runCommand ⟨configPath, isVerbose, command⟩)
      (∀ arguments, (runOf (.check arguments)).2.files = session.files)
        ∧ (∀ arguments,
            GenerateTouches session configPath arguments (runOf (.generate arguments)).1
              (runOf (.generate arguments)).2)
        ∧ ∀ arguments,
            InitTouches session arguments (runOf (.init arguments)).1
              (runOf (.init arguments)).2 := by
  intro runOf
  refine ⟨?_, ?_, ?_⟩
  · intro arguments
    obtain ⟨said, ran, -⟩ := run_checkSchema session configPath arguments
    simp only [runOf, runCommand, Session.run_discard, ran]
    rfl
  · intro arguments
    simp only [runOf, runCommand, Session.run_discard]
    exact generateDocument_touches session configPath arguments
  · intro arguments
    exact createConfig_touches session arguments

/-- The output of a configuration that a document is found under. -/
theorem exists_converted {session : Session} {configPath : Option String}
    {arguments : SourceArguments} {output : OutputConfig}
    (found
      : (session.run (convertSource configPath arguments)).1.toOption.map (·.1.config.output)
        = some output)
    : ∃ source document,
        (session.run (convertSource configPath arguments)).1 = .ok (source, document)
        ∧ source.config.output = output := by
  obtain ⟨⟨source, document⟩, converted, same⟩ := Option.map_eq_some_iff.mp found
  exact ⟨source, document, Session.run_of_toOption converted, same⟩

/-- A document in a directory that is not there yet; one under a configuration of the output, in
another layout and in the configured one; a configuration where there is none; and one where there
is.
-/
theorem commands_touch_only_user
    : let text := "model User { id Int @id }"
      let session : Session := .ofFiles ⟨["work"], [(["work", "schema.prisma"], .text text)]⟩
      let configuration := "[output]\npath = \"out.json\"\npretty = false\n"
      let configured : Session :=
        .ofFiles ⟨["work"],
          [(["work", "schema.prisma"], .text text),
            (["work", "tblsgen.toml"], .text configuration)]⟩
      let held : Session := .ofFiles ⟨["work"], [(["work", "tblsgen.toml"], .text "")]⟩
      let generate (output : Option String) (isPretty : Option Bool) : Invocation :=
        ⟨none, false, .generate ⟨⟨none, none⟩, output, isPretty⟩⟩
      let generated := session.run (runCommand (generate (some "docs/schema.json") (some false)))
      let indented := configured.run (runCommand (generate none (some true)))
      let compact := configured.run (runCommand (generate none none))
      let created := session.run (runCommand ⟨none, false, .init ⟨"new", false⟩⟩)
      let refused := held.run (runCommand ⟨none, false, .init ⟨".", false⟩⟩)
      (generated.1 = .ok ()
        ∧ ∃ document : Document,
            session.files.WroteOnly "docs/schema.json" (document.toText .compact ++ "\n")
              generated.2.files)
        ∧ (indented.1 = .ok ()
          ∧ ∃ document : Document,
              configured.files.WroteOnly "out.json" (document.toText .indented ++ "\n")
                indented.2.files)
        ∧ (compact.1 = .ok ()
          ∧ ∃ document : Document,
              configured.files.WroteOnly "out.json" (document.toText .compact ++ "\n")
                compact.2.files)
        ∧ (created.1 = .ok ()
          ∧ session.files.WroteOnly (Path.join "new" configName) Config.standard.toToml
              created.2.files)
        ∧ refused.1 = .error (.configExists (Path.join "." configName))
        ∧ refused.2.files = held.files := by
  intro text session configuration configured held generate generated indented compact created
    refused
  have generates : generated.1 = .ok () := Session.run_of_toOption (by decide +kernel)
  have indents : indented.1 = .ok () := Session.run_of_toOption (by decide +kernel)
  have compacts : compact.1 = .ok () := Session.run_of_toOption (by decide +kernel)
  have creates : created.1 = .ok () := Session.run_of_toOption (by decide +kernel)
  have converts
      : (session.run (convertSource none ⟨none, none⟩)).1.toOption.map (·.1.config.output)
        = some Config.standard.output := by
    decide +kernel
  have convertsToo
      : (configured.run (convertSource none ⟨none, none⟩)).1.toOption.map (·.1.config.output)
        = some ⟨"out.json", false⟩ := by
    decide +kernel
  have holds : held.files.Holds "." configName := by
    have noParts : Path.parts "." = [] := by decide +kernel
    refine ⟨?_, by decide +kernel, by decide +kernel⟩
    intro location through
    rw [FileSystem.Through, noParts] at through
    cases through
  -- What is run has been settled, and must not be run again to compare the statements below.
  clear_value session configured held
  obtain ⟨source, document, converted, -⟩ := exists_converted converts
  obtain ⟨source', document', converted', output⟩ := exists_converted convertsToo
  have path : source'.config.output.path = "out.json" := by rw [output]
  have notPretty : source'.config.output.isPretty = false := by rw [output]
  have touches := (commands_touch_only session none false).2.1
  have touchesToo := (commands_touch_only configured none false).2.1
  refine ⟨⟨generates, document, ?_⟩, ⟨indents, document', ?_⟩, ⟨compacts, document', ?_⟩,
    ⟨creates, ((commands_touch_only session none false).2.2 ⟨"new", false⟩).file creates⟩,
    ((commands_touch_only held none false).2.2 ⟨".", false⟩).refused rfl holds⟩
  · exact (touches ⟨⟨none, none⟩, some "docs/schema.json", some false⟩).file source document _ _
      converted (.named rfl) (.compact rfl) (by decide) generates
  · exact (touchesToo ⟨⟨none, none⟩, none, some true⟩).file source' document' _ _ converted'
      (path ▸ .configured rfl) (.indented rfl) (by decide) indents
  · exact (touchesToo ⟨⟨none, none⟩, none, none⟩).file source' document' _ _ converted'
      (path ▸ .configured rfl) (.configuredCompact rfl notPretty) (by decide) compacts

end SchemaDoc.Command
