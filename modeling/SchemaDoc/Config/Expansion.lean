/-! Placeholders in configuration text: a name between `$` with an opening brace and a closing
brace stands for the value of a variable. Text that is put in is not looked at again.
-/

namespace SchemaDoc.Config

/-- The variables that are set. -/
abbrev Environment := String → Option String

/-- A text with its placeholders replaced. A placeholder has at least one character between its
braces, and the first closing brace ends it; one that names no variable stays as it is.
-/
def expandFrom (environment : Environment) : List Char → List Char
  | [] => []
  | '$' :: '\x7b' :: rest =>
      let name := rest.takeWhile (· ≠ '\x7d')
      match _h : rest.dropWhile (· ≠ '\x7d') with
      | _ :: behind =>
          if name.isEmpty then '$' :: expandFrom environment ('\x7b' :: rest)
          else
            let placeholder := '$' :: '\x7b' :: name ++ ['\x7d']
            (environment (String.ofList name)).elim placeholder String.toList
              ++ expandFrom environment behind
      | [] => '$' :: '\x7b' :: rest
  | c :: rest => c :: expandFrom environment rest
termination_by text => text.length
decreasing_by
  · simp
  · have := (rest.dropWhile_sublist (· ≠ '\x7d')).length_le
    simp only [_h, List.length_cons] at this ⊢
    omega
  · simp

/-- A configuration text with its placeholders replaced. -/
def expand (environment : Environment) (text : String) : String :=
  String.ofList (expandFrom environment text.toList)

/-- The names in the placeholders of a text, in order. -/
def placeholdersFrom : List Char → List String
  | [] => []
  | '$' :: '\x7b' :: rest =>
      let name := rest.takeWhile (· ≠ '\x7d')
      match _h : rest.dropWhile (· ≠ '\x7d') with
      | _ :: behind =>
          if name.isEmpty then placeholdersFrom ('\x7b' :: rest)
          else String.ofList name :: placeholdersFrom behind
      | [] => []
  | _ :: rest => placeholdersFrom rest
termination_by text => text.length
decreasing_by
  · simp
  · have := (rest.dropWhile_sublist (· ≠ '\x7d')).length_le
    simp only [_h, List.length_cons] at this ⊢
    omega
  · simp

/-- The names in the placeholders of a configuration text, in order. -/
def placeholders (text : String) : List String := placeholdersFrom text.toList

end SchemaDoc.Config
