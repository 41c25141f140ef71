import SchemaDoc.Command.Source

/-! The command that reads a schema and says what it declares, with a warning for every foreign
key to a model that is not declared. What has been said before a failure stays said.
-/

namespace SchemaDoc.Command

open MonadSession

variable {m : Type → Type} [Monad m] [MonadSession m]

/-- What a schema declares, and its foreign keys to models that are not declared. -/
structure Summary where
  models : Nat
  enums : Nat
  fields : Nat
  relations : Nat
  unresolved : List UnresolvedRelation
  deriving DecidableEq, Repr

namespace Summary

/-- The summary of a schema. -/
def ofSchema (schema : Schema) : Summary :=
  let lookup := Lookup.ofSchema schema
  { models := schema.models.length
    enums := schema.enums.length
    fields := schema.fieldCount
    relations := (schema.relations lookup).length
    unresolved := schema.unresolvedRelations lookup }

/-- Whether a schema is fine, as it is said. -/
def verdict (summary : Summary) : List Terminal.Message :=
  if summary.unresolved.isEmpty then [.success "Schema is valid!"]
  else
    [.success "Schema is valid with warnings:", .blank]
      ++ summary.unresolved.map fun relation => .warning relation.message

/-- What a schema declares, as it is said. -/
def counts (summary : Summary) : List Terminal.Message :=
  [.heading "Schema Summary",
    .pair "Models" (toString summary.models),
    .pair "Enums" (toString summary.enums),
    .pair "Total Fields" (toString summary.fields),
    .pair "Relations" (toString summary.relations)]

end Summary

/-- Reads a schema and says what it declares. -/
def checkSchema (configPath : Option String) (arguments : SourceArguments)
    : ExceptT CommandError m Summary := do
  say (.header "Check Schema")
  let source ← findSource configPath arguments
  sayAll
    [.pair "Schema" source.path, .pair "Format" source.format.name, .blank,
      .step 1 2 "Parsing schema..."]
  let text ← readInput source
  let schema ←
    orFail ((source.config.schemaOf source.format text).mapError (.schemaInvalid text))
  let summary := Summary.ofSchema schema
  sayAll
    ([.step 2 2 "Resolving relations...", .blank] ++ summary.verdict ++ [.blank]
      ++ summary.counts)
  pure summary

end SchemaDoc.Command
