import SchemaDoc.Proofs.Command.Reading

/-! Checking a schema and generating its document on the terminal come to the same end.
Both read the schema first, and neither can fail once that is there.
-/

namespace SchemaDoc.Command

/-- A summary counts what is in the document of its schema. -/
theorem counts_ofSchema (heading : Heading) (schema : Schema)
    : let document := Document.ofSchema heading schema
      (Summary.ofSchema schema).counts
      = [.heading "Schema Summary",
          .pair "Models" (toString document.tables.length),
          .pair "Enums" (toString document.enums.length),
          .pair "Total Fields" (toString schema.fieldCount),
          .pair "Relations" (toString document.relations.length)] := by
  simp [Summary.counts, Summary.ofSchema, Document.ofSchema]

/-- Checking a schema fails exactly when generating its document on the terminal does, and then
for the same reason. Otherwise the models, enums and relations that are counted are as many as
the tables, enums and relations of the document that is said.
-/
theorem check_agrees_generate (session : Session) (configPath : Option String)
    (arguments : SourceArguments) (isPretty : Option Bool) (isVerbose : Bool)
    : let checked := session.run (runCommand ⟨configPath, isVerbose, .check arguments⟩)
      let generated :=
        session.run
          (runCommand ⟨configPath, isVerbose, .generate ⟨arguments, some "-", isPretty⟩⟩)
      (∀ error, checked.1 = .error error ↔ generated.1 = .error error)
        ∧ (checked.1 = .ok ()
          → ∃ document layout front fields,
              generated.2 = session.saying [.plain (Document.toText layout document)]
              ∧ checked.2
                = session.saying
                    (front
                      ++ [.heading "Schema Summary",
                        .pair "Models" (toString document.tables.length),
                        .pair "Enums" (toString document.enums.length),
                        .pair "Total Fields" fields,
                        .pair "Relations" (toString document.relations.length)])) := by
  intro checked generated
  obtain ⟨said, ran, ends⟩ := run_checkSchema session configPath arguments
  have converted := run_convertSource session configPath arguments
  let toTerminal : GenerateArguments := ⟨arguments, some "-", isPretty⟩
  simp only [checked, generated, runCommand, Session.run_discard]
  rw [ran]
  cases read : (session.run (readSchema configPath arguments)).1 with
  | error error =>
      have failed : (session.run (convertSource configPath toTerminal.source)).1
          = .error error := by
        rw [converted, read]
        rfl
      rw [run_generateDocument_of_error session configPath failed]
      exact ⟨fun _ => Iff.rfl, nofun⟩
  | ok found =>
      obtain ⟨source, schema⟩ := found
      have given : (session.run (convertSource configPath toTerminal.source)).1
          = .ok (source, Document.ofSchema source.config.heading schema) := by
        rw [converted, read]
        rfl
      have isTerminal : outputPath toTerminal source.config = terminalPath := rfl
      rw [run_generateDocument_terminal session configPath given isTerminal]
      refine ⟨fun _ => Iff.rfl, fun _ => ?_⟩
      obtain ⟨front, split⟩ := ends source schema read
      rw [counts_ofSchema source.config.heading] at split
      exact ⟨_, _, front, _, rfl, by rw [split]⟩

/-- A model with an enum in the working directory, under the standard configuration. -/
theorem check_agrees_generate_user
    : let text := "model User { id Int @id role Role }\nenum Role { ADMIN }"
      let session : Session := .ofFiles ⟨["work"], [(["work", "schema.prisma"], .text text)]⟩
      let checked := session.run (runCommand ⟨none, false, .check ⟨none, none⟩⟩)
      let generated :=
        session.run (runCommand ⟨none, false, .generate ⟨⟨none, none⟩, some "-", some false⟩⟩)
      checked.1 = .ok ()
        ∧ ∃ document layout front fields,
            generated.2 = session.saying [.plain (Document.toText layout document)]
            ∧ checked.2
              = session.saying
                  (front
                    ++ [.heading "Schema Summary",
                      .pair "Models" (toString document.tables.length),
                      .pair "Enums" (toString document.enums.length),
                      .pair "Total Fields" fields,
                      .pair "Relations" (toString document.relations.length)]) := by
  intro text session checked generated
  have isFine : checked.1 = .ok () := Session.run_of_toOption (by decide +kernel)
  exact ⟨isFine, (check_agrees_generate session none ⟨none, none⟩ (some false) false).2 isFine⟩

end SchemaDoc.Command
