import SchemaDoc.Command.Run

/-! Commands in a session: what they give, and the session behind them.
Up to the schema they only look at files and variables, so that neither what has been said nor
which command it is makes a difference.
-/

namespace SchemaDoc

open MonadSession

section Results

variable {ε δ α : Type} {f : ε → δ}

@[simp] theorem mapError_ok (x : α) : (Except.ok x).mapError f = .ok x :=
  rfl

@[simp] theorem mapError_error (error : ε)
    : (Except.error error : Except ε α).mapError f = .error (f error) :=
  rfl

/-- A result is the same whatever the errors are called. -/
theorem mapError_eq_ok_iff {result : Except ε α} {x : α}
    : result.mapError f = .ok x ↔ result = .ok x := by
  cases result <;> simp

theorem exists_of_map_eq_ok {result : Except ε α} {g : α → δ} {y : δ}
    (h : result.map g = .ok y)
    : ∃ x, result = .ok x := by
  cases result with
  | error error => cases h
  | ok x => exact ⟨x, rfl⟩

end Results

/-- What is done for a command in a session, with a result or a failure. -/
abbrev Action (α : Type) := ExceptT CommandError (StateM Session) α

namespace Session

variable {α β : Type} {session : Session}

/-- The result or the failure of an action in a session, and the session behind it. -/
def run (session : Session) (action : Action α) : Except CommandError α × Session :=
  StateT.run action.run session

/-- A session in which more has been said. -/
def saying (session : Session) (messages : List Terminal.Message) : Session :=
  { session with said := session.said ++ messages }

@[simp] theorem saying_nil : session.saying [] = session := by
  simp [saying]

@[simp] theorem saying_saying (front back : List Terminal.Message)
    : (session.saying front).saying back = session.saying (front ++ back) := by
  simp [saying]

-----------------------------------------------------------------------------------------
-- Runs of actions
-----------------------------------------------------------------------------------------

@[simp] theorem run_pure (x : α) : session.run (pure x) = (.ok x, session) :=
  rfl

@[simp] theorem run_throw (error : CommandError)
    : session.run (throw error : Action α) = (.error error, session) :=
  rfl

@[simp] theorem run_orFail (result : Except CommandError α)
    : session.run (Command.orFail result) = (result, session) := by
  cases result <;> rfl

@[simp] theorem run_bind (action : Action α) (next : α → Action β)
    : session.run (action >>= next)
      = match session.run action with
        | (.ok x, after) => after.run (next x)
        | (.error error, after) => (.error error, after) := by
  change StateT.run ((action >>= next : Action β).run) session = _
  rw [run, ExceptT.run_bind, StateT.run_bind]
  change (match StateT.run action.run session with | (result, after) => _) = _
  rcases StateT.run action.run session with ⟨_ | _, after⟩ <;> rfl

/-- An action that succeeds has got through its first step. -/
theorem run_bind_of_ok {action : Action α} {next : α → Action β} {y : β}
    (succeeds : (session.run (action >>= next)).1 = .ok y)
    : ∃ x after,
        session.run action = (.ok x, after)
        ∧ session.run (action >>= next) = after.run (next x) := by
  rw [run_bind] at succeeds ⊢
  revert succeeds
  rcases session.run action with ⟨error | x, after⟩
  · exact nofun
  · exact fun _ => ⟨x, after, rfl, rfl⟩

@[simp] theorem run_discard (action : Action α)
    : session.run (discard action)
      = ((session.run action).1.map fun _ => (), (session.run action).2) := by
  change session.run (action >>= fun _ => pure ()) = _
  rw [run_bind]
  rcases session.run action with ⟨_ | _, after⟩ <;> rfl

/-- An action has the result that is found by running it. -/
theorem run_of_toOption {action : Action α} {x : α}
    (found : (session.run action).1.toOption = some x)
    : (session.run action).1 = .ok x := by
  cases result : (session.run action).1 with
  | error error => simp [result, Except.toOption] at found
  | ok y => simpa [result, Except.toOption] using found

@[simp] theorem run_exists? (path : String)
    : session.run (exists? path) = (.ok (session.files.contains path), session) :=
  rfl

@[simp] theorem run_workingDirectory : session.run workingDirectory = (.ok ".", session) :=
  rfl

@[simp] theorem run_variableValue (name : String)
    : session.run (variableValue name)
      = (.ok ((session.environment.find? (·.1 == name)).map Prod.snd), session) :=
  rfl

@[simp] theorem run_readText (path : String)
    : session.run (readText path) = (.ok (session.files.readText path), session) :=
  rfl

@[simp] theorem run_writeText (path content : String)
    : session.run (writeText path content)
      = (.ok (session.files.writeText path content).1,
          { session with files := (session.files.writeText path content).2 }) :=
  rfl

@[simp] theorem run_makeDirectories (path : String)
    : session.run (makeDirectories path)
      = (.ok (session.files.makeDirectories path).1,
          { session with files := (session.files.makeDirectories path).2 }) :=
  rfl

@[simp] theorem run_say (message : Terminal.Message)
    : session.run (say message) = (.ok (), session.saying [message]) :=
  rfl

@[simp] theorem run_sayAll (messages : List Terminal.Message)
    : session.run (sayAll messages) = (.ok (), session.saying messages) := by
  induction messages generalizing session with
  | nil => simp [sayAll]
  | cons message messages ih =>
      change session.run (say message >>= fun _ => sayAll messages) = _
      simp [ih]

end Session

-----------------------------------------------------------------------------------------
-- Actions that only look
-----------------------------------------------------------------------------------------

/-- An action only looks at files and variables. Neither does it change anything, nor does it
matter what has been said.
-/
def OnlyLooks {α : Type} (action : Action α) : Prop :=
  ∀ (session : Session) (said : List Terminal.Message),
    (session.saying said).run action = ((session.run action).1, session.saying said)

namespace OnlyLooks

variable {α β : Type}

/-- A session stays as it is where an action only looks. -/
theorem run_eq {action : Action α} (looks : OnlyLooks action) (session : Session)
    : session.run action = ((session.run action).1, session) := by
  simpa using looks session []

theorem run_bind {action : Action α} (looks : OnlyLooks action) (session : Session)
    (next : α → Action β)
    : session.run (action >>= next)
      = match (session.run action).1 with
        | .ok x => session.run (next x)
        | .error error => (.error error, session) := by
  rw [Session.run_bind, looks.run_eq session]
  cases (session.run action).1 <;> rfl

/-- What is found when more has been said is the same. -/
theorem run_saying_bind {action : Action α} (looks : OnlyLooks action) (session : Session)
    (said : List Terminal.Message) (next : α → Action β)
    : (session.saying said).run (action >>= next)
      = match (session.run action).1 with
        | .ok x => (session.saying said).run (next x)
        | .error error => (.error error, session.saying said) := by
  rw [looks.run_bind, looks session said]

theorem pure (x : α) : OnlyLooks (Pure.pure x) :=
  fun _ _ => rfl

theorem throw (error : CommandError) : OnlyLooks (MonadExcept.throw error : Action α) :=
  fun _ _ => rfl

theorem orFail (result : Except CommandError α) : OnlyLooks (Command.orFail result) := by
  intro session said
  simp

theorem exists? (path : String) : OnlyLooks (MonadSession.exists? path) :=
  fun _ _ => rfl

theorem workingDirectory : OnlyLooks MonadSession.workingDirectory :=
  fun _ _ => rfl

theorem readText (path : String) : OnlyLooks (MonadSession.readText path) :=
  fun _ _ => rfl

theorem variableValue (name : String) : OnlyLooks (MonadSession.variableValue name) :=
  fun _ _ => rfl

theorem bind {action : Action α} {next : α → Action β} (first : OnlyLooks action)
    (second : ∀ x, OnlyLooks (next x))
    : OnlyLooks (action >>= next) := by
  intro session said
  rw [first.run_saying_bind, first.run_bind]
  cases (session.run action).1 with
  | error error => rfl
  | ok x => exact second x session said

theorem mapM {action : α → Action β} (each : ∀ x, OnlyLooks (action x)) (xs : List α)
    : OnlyLooks (xs.mapM action) := by
  induction xs with
  | nil => exact OnlyLooks.pure []
  | cons x xs ih =>
      rw [List.mapM_cons]
      exact (each x).bind fun _ => ih.bind fun _ => .pure _

end OnlyLooks

namespace Command

theorem onlyLooks_readConfig (path : String) : OnlyLooks (readConfig path) := by
  refine (OnlyLooks.readText path).bind fun _ => (OnlyLooks.orFail _).bind fun text => ?_
  refine OnlyLooks.bind ?_ fun _ => .orFail _
  exact .mapM (fun name => (OnlyLooks.variableValue name).bind fun _ => .pure _) _

theorem onlyLooks_loadConfig (path : Option String) : OnlyLooks (loadConfig path) := by
  have ifFound {otherwise : Action Config} (path : String) (looks : OnlyLooks otherwise)
      : OnlyLooks
          (exists? path >>= fun found => if found then readConfig path else otherwise) := by
    refine (OnlyLooks.exists? path).bind fun found => ?_
    cases found with
    | false => exact looks
    | true => exact onlyLooks_readConfig path
  cases path with
  | none => exact OnlyLooks.workingDirectory.bind fun _ => ifFound _ (.pure _)
  | some path => exact ifFound path (.throw _)

theorem onlyLooks_findSource (configPath : Option String) (arguments : SourceArguments)
    : OnlyLooks (findSource configPath arguments) := by
  refine (onlyLooks_loadConfig configPath).bind fun config => ?_
  refine (OnlyLooks.exists? _).bind fun found => ?_
  cases found with
  | false => exact .throw _
  | true => exact .pure _

theorem onlyLooks_readInput (source : Source) : OnlyLooks (readInput source) :=
  (OnlyLooks.readText _).bind fun _ => .orFail _

-----------------------------------------------------------------------------------------
-- The schema that commands read
-----------------------------------------------------------------------------------------

/-- The input of a command, and the schema that it gives. -/
def readSchema (configPath : Option String) (arguments : SourceArguments)
    : Action (Source × Schema) := do
  let source ← findSource configPath arguments
  let text ← readInput source
  let schema ←
    orFail ((source.config.schemaOf source.format text).mapError (.schemaInvalid text))
  pure (source, schema)

theorem onlyLooks_convertSource (configPath : Option String) (arguments : SourceArguments)
    : OnlyLooks (convertSource configPath arguments) :=
  (onlyLooks_findSource configPath arguments).bind fun source =>
    (onlyLooks_readInput source).bind fun _ => (OnlyLooks.orFail _).bind fun _ => .pure _

/-- An input that gives a schema gives the document of that schema, and another one fails alike.
-/
theorem mapError_ofInput (config : Config) (format : InputFormat) (text : String)
    : (Document.ofInput config format text).mapError CommandError.ofConversion
      = ((config.schemaOf format text).mapError (CommandError.schemaInvalid text)).map
          (Document.ofSchema config.heading) := by
  cases format with
  | schemaText =>
      simp only [Document.ofInput, Document.ofSchemaText, Config.schemaOf, Schema.ofInput]
      cases Schema.ofText config.isStrict text <;> rfl
  | description =>
      simp only [Document.ofInput, Document.ofDescription, Config.schemaOf, Schema.ofInput]
      cases Description.ofText text <;> rfl

section Runs

variable (session : Session) (configPath : Option String) (arguments : SourceArguments)

/-- A document is converted from the schema that is read. -/
theorem run_convertSource
    : session.run (convertSource configPath arguments)
      = ((session.run (readSchema configPath arguments)).1.map fun (source, schema) =>
            (source, Document.ofSchema source.config.heading schema),
          session) := by
  have finds := onlyLooks_findSource configPath arguments
  rw [convertSource, readSchema, finds.run_bind, finds.run_bind]
  cases (session.run (findSource configPath arguments)).1 with
  | error error => rfl
  | ok source =>
      have reads := onlyLooks_readInput source
      simp only
      rw [reads.run_bind, reads.run_bind]
      cases (session.run (readInput source)).1 with
      | error error => rfl
      | ok text =>
          simp only [Session.run_bind, Session.run_orFail, mapError_ofInput]
          cases source.config.schemaOf source.format text <;> rfl

/-- A document that is not converted leaves everything as it is. -/
theorem run_generateDocument_of_error {arguments : GenerateArguments} {error : CommandError}
    (failed : (session.run (convertSource configPath arguments.source)).1 = .error error)
    : session.run (generateDocument configPath arguments) = (.error error, session) := by
  rw [generateDocument, (onlyLooks_convertSource _ _).run_bind, failed]

section Converted

variable {arguments : GenerateArguments} {source : Source} {document : Document}
  (converted
    : (session.run (convertSource configPath arguments.source)).1 = .ok (source, document))
include converted

/-- A document on the terminal is all that is said. -/
theorem run_generateDocument_terminal
    (toTerminal : outputPath arguments source.config = terminalPath)
    : session.run (generateDocument configPath arguments)
      = (.ok document,
          session.saying [.plain (document.toText (outputLayout arguments source.config))]) := by
  rw [generateDocument, (onlyLooks_convertSource _ _).run_bind, converted]
  simp only
  rw [if_pos toTerminal, Session.run_bind, Session.run_say]
  rfl

/-- A document in a file is written, and then it is reported. -/
theorem run_generateDocument_file (toFile : outputPath arguments source.config ≠ terminalPath)
    : let path := outputPath arguments source.config
      session.run (generateDocument configPath arguments)
      = session.run (do
          writeOutput path (document.toText (outputLayout arguments source.config))
          sayAll (report source path document)
          pure document) := by
  rw [generateDocument, (onlyLooks_convertSource _ _).run_bind, converted]
  simp only
  rw [if_neg toFile]

end Converted

/-- A schema is checked by reading it, and in the end it is said what it declares. -/
theorem run_checkSchema
    : ∃ said,
        session.run (checkSchema configPath arguments)
          = ((session.run (readSchema configPath arguments)).1.map fun (_, schema) =>
                Summary.ofSchema schema,
              session.saying said)
        ∧ ∀ source schema,
            (session.run (readSchema configPath arguments)).1 = .ok (source, schema)
            → (Summary.ofSchema schema).counts <:+ said := by
  have finds := onlyLooks_findSource configPath arguments
  rw [checkSchema, readSchema, Session.run_bind, Session.run_say]
  simp only
  rw [finds.run_saying_bind, finds.run_bind]
  cases (session.run (findSource configPath arguments)).1 with
  | error error => exact ⟨_, rfl, nofun⟩
  | ok source =>
      have reads := onlyLooks_readInput source
      simp only
      rw [Session.run_bind, Session.run_sayAll]
      simp only
      rw [Session.saying_saying, reads.run_saying_bind, reads.run_bind]
      cases (session.run (readInput source)).1 with
      | error error => exact ⟨_, rfl, nofun⟩
      | ok text =>
          simp only [Session.run_bind, Session.run_orFail]
          cases source.config.schemaOf source.format text with
          | error error => exact ⟨_, rfl, nofun⟩
          | ok schema =>
              apply Exists.intro
              constructor
              · simp only [mapError_ok, Session.run_sayAll, Session.saying_saying,
                  Session.run_pure]
                rfl
              · rintro _ _ ⟨⟩
                exact (List.suffix_append _ _).trans (List.suffix_append _ _)

end Runs

end Command

end SchemaDoc
