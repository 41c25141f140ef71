import SchemaDoc.Toml.Line

/-! A TOML document as one table, put together from its lines.
A table that only came about on the way to another one may still be written out once; it then
takes its place anew, behind what has been written so far.
-/

namespace SchemaDoc.Toml

/-- The part of a document under one header. -/
structure Section where
  header : Header
  entries : List Entry
  deriving Repr

/-- The entries in front of the first header, and the part under each header. -/
def sectionsOf : List Statement → List Entry × List Section
  | [] => ([], [])
  | .entry entry :: rest =>
      let (entries, sections) := sectionsOf rest
      (entry :: entries, sections)
  | .header header :: rest =>
      let (entries, sections) := sectionsOf rest
      ([], ⟨header, entries⟩ :: sections)

namespace Table

/-- Adds an entry; a table that is written somewhere then reaches to its value. -/
def putEntry (table : Table) (entry : Entry) : Option Table := do
  let table ← table.put entry.path entry.key entry.node
  let reach (place : Place) : Place := { place with stop := (entry.node.place?.getD place).stop }
  some { table with place := table.place.map reach }

/-- Adds entries one by one. -/
def putEntries (table : Table) (entries : List Entry) : Option Table :=
  entries.foldlM putEntry table

/-- Adds the part under a header to the table that it belongs in. -/
def addSection (written : Section) (parent : Table) : Option Table := do
  let key := written.header.key
  let body (entries : List (Key × Node)) :=
    (Table.mk .header (some written.header.place) entries).putEntries written.entries
  if written.header.isRepeated then
    let table ← body []
    match parent.get? key.name with
    | none => some (parent.add key (.tables [table.toNode]))
    | some (.tables items) =>
        some (parent.replace key.name (.tables (items ++ [table.toNode])))
    | some _ => none
  else
    match parent.get? key.name with
    | none => some (parent.add key (← body []).toNode)
    | some (.table .implied _ entries) =>
        some ((parent.erase key.name).add key (← body entries).toNode)
    | some _ => none

end Table

/-- The mark that may stand in front of a text to tell how it is encoded. -/
def byteOrderMark : Char := '\uFEFF'

/-- The document that a text holds, if the text is well formed and writes nothing twice. -/
def documentOf? (text : String) : Option Table := do
  let chars := text.toList
  let lines ←
    scanLines (if chars.head? = some byteOrderMark then chars.drop 1 else chars)
  let (entries, sections) := sectionsOf lines
  let root ← (Table.mk .header none []).putEntries entries
  sections.foldlM (fun root written =>
    root.changeAt false (Table.addSection written) written.header.path) root

end SchemaDoc.Toml
