import Mathlib
import SchemaDoc.Naming

/-! Names in snake case, in two steps instead of one.
First an underscore goes between each small letter and a capital letter right behind it, then all
letters become small. Nothing is left to do for a name that has been through both steps, and the
parts of a name can be folded apart.
-/

namespace SchemaDoc.Naming

-----------------------------------------------------------------------------------------
-- Two steps
-----------------------------------------------------------------------------------------

/-- A name with an underscore between each small letter and a capital letter right behind it. -/
def separated : List Char → List Char
  | c :: d :: rest =>
      if c.isLower && d.isUpper then c :: '_' :: separated (d :: rest)
      else c :: separated (d :: rest)
  | [c] => [c]
  | [] => []

/-- Whether a name starts with a capital letter. -/
def startsUpper (name : List Char) : Bool := name.head?.any Char.isUpper

/-- Whether a name ends in a small letter. -/
def endsLower (name : List Char) : Bool := name.getLast?.any Char.isLower

/-- The underscore between two parts of a name, where there is one. -/
def seam (afterLower : Bool) (behind : List Char) : List Char :=
  if afterLower && startsUpper behind then ['_'] else []

theorem separated_cons (c : Char) (rest : List Char)
    : separated (c :: rest) = c :: (seam c.isLower rest ++ separated rest) := by
  cases rest with
  | nil => simp [separated, seam, startsUpper]
  | cons d rest =>
      rw [separated, seam, startsUpper, List.head?_cons, Option.any_some]
      cases c.isLower && d.isUpper <;> rfl

/-- An underscore has no case, so it may be put in before or after the letters become small. -/
theorem map_toLower_seam (afterLower : Bool) (behind : List Char)
    : (seam afterLower behind).map Char.toLower = seam afterLower behind := by
  rw [seam]
  split <;> rfl

theorem foldFrom_cons (afterLower : Bool) (c : Char) (rest : List Char)
    : foldFrom afterLower (c :: rest)
      = seam afterLower (c :: rest) ++ c.toLower :: foldFrom c.isLower rest := by
  rw [foldFrom, seam, startsUpper, List.head?_cons, Option.any_some]
  cases afterLower && c.isUpper <;> rfl

/-- The one pass is the two steps, with what it knows of the character in front put first. By
induction on the name, for either state.
-/
theorem foldFrom_eq (afterLower : Bool) (name : List Char)
    : foldFrom afterLower name
      = seam afterLower name ++ (separated name).map Char.toLower := by
  induction name generalizing afterLower with
  | nil => simp [foldFrom, seam, startsUpper, separated]
  | cons c rest ih =>
      rw [foldFrom_cons, ih, separated_cons, List.map_cons, List.map_append, map_toLower_seam]

theorem toList_snakeCase (name : String)
    : (snakeCase name).toList = (separated name.toList).map Char.toLower := by
  simp [snakeCase, foldFrom_eq, seam]

-----------------------------------------------------------------------------------------
-- Names without capital letters
-----------------------------------------------------------------------------------------

theorem isUpper_of_mem_snakeCase {name : String} {c : Char} (isMember : c ∈ (snakeCase name).toList)
    : c.isUpper = false := by
  rw [toList_snakeCase] at isMember
  obtain ⟨d, -, rfl⟩ := List.mem_map.mp isMember
  exact d.isUpper_toLower_eq_false

theorem startsUpper_eq_false {name : List Char} (noUpper : ∀ c ∈ name, c.isUpper = false)
    : startsUpper name = false := by
  cases name with
  | nil => rfl
  | cons c rest => exact noUpper c List.mem_cons_self

/-- A name without capital letters is already folded. -/
theorem foldFrom_eq_self {name : List Char} (noUpper : ∀ c ∈ name, c.isUpper = false)
    (afterLower : Bool)
    : foldFrom afterLower name = name := by
  induction name generalizing afterLower with
  | nil => rfl
  | cons c rest ih =>
      obtain ⟨notUpper, noUpperBehind⟩ := List.forall_mem_cons.mp noUpper
      have small : c.toLower = c := Char.toLower_eq_of_not_isUpper (by simp [notUpper])
      rw [foldFrom_cons, seam, startsUpper_eq_false noUpper, ih noUpperBehind, small]
      simp

theorem snakeCase_snakeCase (name : String) : snakeCase (snakeCase name) = snakeCase name := by
  have noUpper : ∀ c ∈ (snakeCase name).toList, c.isUpper = false := fun _ =>
    isUpper_of_mem_snakeCase
  rw [snakeCase, foldFrom_eq_self noUpper, String.ofList_toList]

-----------------------------------------------------------------------------------------
-- Parts of names
-----------------------------------------------------------------------------------------

/-- Where a name is cut, only the character in front of the cut counts for what is behind it. -/
theorem separated_append (front back : List Char)
    : separated (front ++ back)
      = separated front ++ (seam (endsLower front) back ++ separated back) := by
  induction front with
  | nil => simp [separated, seam, endsLower]
  | cons c front ih =>
      cases front with
      | nil => simp [separated_cons, separated, seam, startsUpper, endsLower]
      | cons d front =>
          have sameSeam : seam c.isLower (d :: front ++ back) = seam c.isLower (d :: front) := rfl
          have sameEnd : endsLower (c :: d :: front) = endsLower (d :: front) := by
            simp [endsLower]
          rw [List.cons_append, separated_cons, ih, sameSeam, separated_cons c, sameEnd]
          simp

/-- Whether a name is cut between a small letter and a capital letter. -/
def cutsWord (front back : String) : Bool := endsLower front.toList && startsUpper back.toList

theorem snakeCase_append (front back : String)
    : snakeCase (front ++ back)
      = snakeCase front ++ (if cutsWord front back then "_" else "") ++ snakeCase back := by
  rw [← String.toList_inj]
  simp only [String.toList_append, toList_snakeCase, separated_append, List.map_append,
    map_toLower_seam, List.append_assoc]
  rw [seam, cutsWord]
  cases endsLower front.toList && startsUpper back.toList <;> rfl

/-- The folded name is longer by the underscore, so it shows whether there is one. -/
theorem append_underscore_ne (front back : String) : front ++ "_" ++ back ≠ front ++ back := by
  intro same
  have lengths := congrArg String.length same
  simp [String.length_append] at lengths

/-- The one pass over a name is the two steps. It leaves no capital letters, a second pass changes
nothing, and the parts of a name are folded apart, with an underscore between them exactly where
a word was cut.
-/
theorem snakeCase_is_two_steps (name front back : String)
    : (snakeCase name).toList = (separated name.toList).map Char.toLower
      ∧ (snakeCase name).toList.all (!·.isUpper) = true
      ∧ snakeCase (snakeCase name) = snakeCase name
      ∧ (snakeCase (front ++ back) = snakeCase front ++ "_" ++ snakeCase back
          ↔ cutsWord front back = true)
      ∧ (snakeCase (front ++ back) = snakeCase front ++ snakeCase back
          ↔ cutsWord front back = false) := by
  have noUpper : (snakeCase name).toList.all (!·.isUpper) = true := by
    rw [List.all_eq_true]
    intro c isMember
    rw [isUpper_of_mem_snakeCase isMember, Bool.not_false]
  have apart := append_underscore_ne (snakeCase front) (snakeCase back)
  refine ⟨toList_snakeCase name, noUpper, snakeCase_snakeCase name, ?_⟩
  rw [snakeCase_append]
  cases cutsWord front back with
  | true => simp
  | false => simpa using apart.symm

/-- Only a small letter makes a cut: digits, underscores and runs of capitals do not. -/
example : snakeCase "userHTTPServer2Go_ÉTa" = "user_httpserver2go_Éta" := by decide

end SchemaDoc.Naming
