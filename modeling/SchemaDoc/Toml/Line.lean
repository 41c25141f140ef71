import SchemaDoc.Toml.Bare
import SchemaDoc.Toml.Basic
import SchemaDoc.Toml.Quoted

/-! The lines of a TOML document: headers of tables, and names with their values.
A line that is not well formed makes the whole text no document, whatever is wrong with it.
-/

namespace SchemaDoc.Toml

/-- A value under a dotted name: the front of the name, its last part, and the value. -/
structure Entry where
  path : List Key
  key : Key
  node : Node
  deriving Repr

/-- The header of a table: the front of its name, its last part, where it is written, and
whether the table stands with others under the same name.
-/
structure Header where
  path : List Key
  key : Key
  place : Place
  isRepeated : Bool
  deriving Repr

/-- What a line says. -/
inductive Statement where
  | header (header : Header)
  | entry (entry : Entry)
  deriving Repr

/-- The least number of names in a row, or of values inside one another, that is too deep. -/
def maxDepth : Nat := 80

/-! ### Names -/

/-- Whether a character can stand in a name without quotes. -/
def isBareKeyPart (c : Char) : Bool := c.isAlphanum || c == '_' || c == '-'

/-- The text of the name at the front of a text, and what is behind it. -/
def scanName (text : List Char) : Option (String × List Char) :=
  let quoted (isBasic : Bool) (rest : List Char) :=
    (Style.scan ⟨isBasic, false⟩ rest).map fun (name, rest) => (String.ofList name, rest)
  match text with
  | '"' :: rest => quoted true rest
  | '\x27' :: rest => quoted false rest
  | text =>
      match text.takeWhile isBareKeyPart with
      | [] => none
      | name => some (String.ofList name, text.dropWhile isBareKeyPart)

/-- The name at the front of a text, what is behind it, and blanks around it. -/
def scanKey (text : List Char) : Option (Key × List Char) := do
  let text := dropBlanks text
  let (name, rest) ← scanName text
  some (⟨name, ⟨text.length, rest.length⟩⟩, dropBlanks rest)

/-- The parts of the dotted name at the front of a text, at most as many as given, and what is
behind it. The last part comes apart from the others.
-/
def scanDotted : Nat → List Char → Option ((List Key × Key) × List Char)
  | 0, _ => none
  | limit + 1, text =>
      match scanKey text with
      | none => none
      | some (key, '.' :: rest) =>
          (scanDotted limit rest).map fun ((path, last), rest) => ((key :: path, last), rest)
      | some (key, rest) => some (([], key), rest)

/-- The dotted name at the front of a text, and what is behind it. -/
def scanPath (text : List Char) : Option ((List Key × Key) × List Char) :=
  scanDotted (maxDepth - 1) text

/-! ### Values -/

/-- A bare value at a place. -/
def Bare.toNode (place : Place) : Bare → Node
  | boolean b => .boolean place b
  | integer n => .integer place n
  | float x => .float place x
  | dateTime => .dateTime place

/-- The table in braces that entries make up. -/
def bracesOf? (place : Place) (entries : List Entry) : Option Node :=
  let add (table : Table) (entry : Entry) := table.put entry.path entry.key entry.node
  (entries.foldlM add ⟨.braces, some place, []⟩).map Table.toNode

mutual

/-- The value at the front of a text, inside some number of others, and what is behind it. The
fuel is enough when there is as much of it as text.
-/
def scanValue (fuel depth : Nat) (text : List Char) : Option (Node × List Char) :=
  match fuel with
  | 0 => none
  | fuel + 1 =>
      match text with
      | [] => none
      | '[' :: rest =>
          if maxDepth ≤ depth + 1 then none
          else
            (scanItems fuel (depth + 1) rest).map fun (items, rest) =>
              (.array ⟨text.length, rest.length⟩ items, rest)
      | '\x7b' :: rest =>
          if maxDepth ≤ depth + 1 then none
          else
            match dropBlanks rest with
            | '\x7d' :: rest =>
                some (.table .braces (some ⟨text.length, rest.length⟩) [], rest)
            | _ => do
                let (entries, rest) ← scanEntries fuel (depth + 1) rest
                let table ← bracesOf? ⟨text.length, rest.length⟩ entries
                some (table, rest)
      | c :: _ =>
          if c = '"' ∨ c = '\x27' then
            (scanQuoted text).map fun (content, rest) =>
              (.string ⟨text.length, rest.length⟩ content, rest)
          else
            (Bare.scan text).map fun (bare, rest) =>
              (bare.toNode ⟨text.length, rest.length⟩, rest)

/-- The items of an array from behind its bracket or a comma, and what is behind the array.
-/
def scanItems (fuel depth : Nat) (text : List Char) : Option (List Node × List Char) :=
  match fuel with
  | 0 => none
  | fuel + 1 =>
      match dropLayout false text with
      | ']' :: rest => some ([], rest)
      | text =>
          match scanValue fuel depth text with
          | none => none
          | some (item, rest) =>
              match dropLayout false rest with
              | ']' :: rest => some ([item], rest)
              | ',' :: rest =>
                  (scanItems fuel depth rest).map fun (items, rest) => (item :: items, rest)
              | _ => none

/-- The entries of a table in braces from behind its brace or a comma, and what is behind the
table.
-/
def scanEntries (fuel depth : Nat) (text : List Char) : Option (List Entry × List Char) :=
  match fuel with
  | 0 => none
  | fuel + 1 =>
      match scanPath text with
      | some ((path, key), '=' :: rest) =>
          match scanValue fuel depth (dropBlanks rest) with
          | none => none
          | some (node, rest) =>
              match dropBlanks rest with
              | '\x7d' :: rest => some ([⟨path, key, node⟩], rest)
              | ',' :: rest =>
                  (scanEntries fuel depth rest).map fun (entries, rest) =>
                    (⟨path, key, node⟩ :: entries, rest)
              | _ => none
      | _ => none

end

/-! ### Lines -/

/-- The header at the front of a text, and what is behind it. -/
def scanHeader (text : List Char) : Option (Header × List Char) :=
  let isRepeated := ['[', '['].isPrefixOf text
  match scanPath (text.drop (if isRepeated then 2 else 1)) with
  | some ((path, key), ']' :: rest) =>
      let closed := if isRepeated then Bare.behind? ']' rest else some rest
      closed.map fun rest => (⟨path, key, ⟨text.length, rest.length⟩, isRepeated⟩, rest)
  | _ => none

/-- The entry at the front of a text, and what is behind it. -/
def scanEntry (text : List Char) : Option (Entry × List Char) :=
  match scanPath text with
  | some ((path, key), '=' :: rest) =>
      let rest := dropBlanks rest
      (scanValue (2 * rest.length + 2) 0 rest).map fun (node, rest) =>
        (⟨path, key, node⟩, rest)
  | _ => none

/-- What the first line of a text says, if anything, and what is behind the line. -/
def scanLine (text : List Char) : Option (Option Statement × List Char) := do
  let text := dropBlanks text
  let (statement, rest) ←
    match text with
    | [] | '#' :: _ | '\n' :: _ | '\r' :: _ => some (none, text)
    | '[' :: _ => (scanHeader text).map fun (header, rest) => (some (.header header), rest)
    | text => (scanEntry text).map fun (entry, rest) => (some (.entry entry), rest)
  some (statement, ← behindLine? rest)

/-- What the lines of a text say, if all of them are well formed. -/
def scanLines (text : List Char) : Option (List Statement) :=
  if text.isEmpty then some []
  else
    match scanLine text with
    | none => none
    | some (statement, rest) =>
        if rest.length < text.length then (scanLines rest).map (statement.toList ++ ·) else none
termination_by text.length

end SchemaDoc.Toml
