import SchemaDoc.Proofs.Path

/-! What changes in a system when directories are made and files are written.
A path leads through directories to one location. Writing changes what is there, making
directories fills in what is missing on the way, and everything else stays.
-/

namespace SchemaDoc

namespace Path

/-- Where parts lead from a location, whatever is there. -/
def follow (location : Location) (parts : List String) : Location := parts.foldl step location

/-- Parts lead through a location: where they start, and where they come before the last one.
-/
inductive Through : Location → List String → Location → Prop
  | here {location part parts} : Through location (part :: parts) location
  | behind {location part parts other} (through : Through (step location part) parts other)
    : Through location (part :: parts) other

theorem through_start {location : Location} {parts : List String} {last : String}
    : Through location (parts ++ [last]) location := by
  cases parts with
  | nil => exact .here
  | cons => exact .here

/-- What holds of all that parts lead through holds of where they start, and of the rest. -/
theorem forall_through_cons {location : Location} {part : String} {parts : List String}
    {p : Location → Prop}
    : (∀ other, Through location (part :: parts) other → p other)
      ↔ p location ∧ ∀ other, Through (step location part) parts other → p other := by
  constructor
  · intro each
    exact ⟨each location .here, fun other through => each other (.behind through)⟩
  · intro each other through
    cases through with
    | here => exact each.1
    | behind through => exact each.2 other through

/-- One more part leads through where the others lead, and through nothing else. -/
theorem through_concat_iff {location other : Location} {parts : List String} {last : String}
    : Through location (parts ++ [last]) other
      ↔ Through location parts other ∨ other = follow location parts := by
  induction parts generalizing location with
  | nil =>
      constructor
      · intro through
        cases through with
        | here => exact Or.inr rfl
        | behind through => cases through
      · intro through
        rcases through with through | rfl
        · cases through
        · exact .here
  | cons part parts ih =>
      constructor
      · intro through
        cases through with
        | here => exact Or.inl .here
        | behind through => exact (ih.mp through).imp .behind id
      · intro through
        rcases through with through | atEnd
        · cases through with
          | here => exact .here
          | behind through => exact .behind (ih.mpr (Or.inl through))
        · exact .behind (ih.mpr (Or.inr atEnd))

end Path

namespace FileSystem

open SchemaDoc.Path

/-- Where a path leads, whatever is there. -/
def target (files : FileSystem) (path : String) : Location :=
  follow (files.start path) (parts path)

/-- A path leads through a location. -/
def Through (files : FileSystem) (path : String) (location : Location) : Prop :=
  Path.Through (files.start path) (parts path) location

/-- A path leads through directories only. -/
def Opens (files : FileSystem) (path : String) : Prop :=
  ∀ location, files.Through path location → files.get? location = some .directory

variable {files : FileSystem} {path content : String}

-----------------------------------------------------------------------------------------
-- Where paths lead
-----------------------------------------------------------------------------------------

/-- Where paths lead depends on the working directory only. -/
theorem target_of_home {after : FileSystem} (same : after.home = files.home)
    : after.target path = files.target path := by
  rw [target, target, start, start, same]

theorem through_of_home {after : FileSystem} (same : after.home = files.home)
    {location : Location}
    : after.Through path location ↔ files.Through path location := by
  rw [Through, Through, start, start, same]

/-- The top and the working directory are directories. -/
theorem get?_start (files : FileSystem) (path : String)
    : files.get? (files.start path) = some .directory := by
  rw [get?, if_pos]
  rw [start]
  split
  · rfl
  · simp

/-- What is not a directory is not on the way to the working directory. -/
theorem isPrefixOf_home_of_ne {location : Location}
    (notDirectory : files.get? location ≠ some .directory)
    : location.isPrefixOf files.home = false := by
  rw [Bool.eq_false_iff]
  intro isAbove
  exact notDirectory (if_pos isAbove)

/-- Parts can be walked where they lead through directories only. -/
theorem walk_eq_ok_iff {location found : Location} {parts : List String}
    : files.walk location parts = .ok found
      ↔ (∀ other, Path.Through location parts other → files.get? other = some .directory)
        ∧ follow location parts = found := by
  induction parts generalizing location with
  | nil =>
      constructor
      · intro walked
        exact ⟨nofun, Except.ok.inj walked⟩
      · intro walked
        exact congrArg Except.ok walked.2
  | cons part parts ih =>
      rw [walk, forall_through_cons]
      cases there : files.get? location with
      | none => simp
      | some node => cases node <;> simp [ih, follow]

theorem locate_eq_ok_iff {location : Location}
    : files.locate path = .ok location
      ↔ path ≠ "" ∧ files.Opens path ∧ files.target path = location := by
  rw [locate]
  split
  next isEmpty => simp [String.isEmpty_iff.mp isEmpty]
  next notEmpty =>
    rw [walk_eq_ok_iff]
    have hasText : path ≠ "" := fun same => notEmpty (by simp [same])
    exact ⟨fun walked => ⟨hasText, walked⟩, fun located => located.2⟩

-----------------------------------------------------------------------------------------
-- Directories that are made
-----------------------------------------------------------------------------------------

/-- Making a missing directory changes nothing else. -/
theorem get?_put_directory {location : Location} (missing : files.get? location = none)
    (other : Location)
    : (files.put location .directory).get? other
      = if location = other then some .directory else files.get? other := by
  split
  next same =>
    subst same
    have notDirectory : files.get? location ≠ some .directory := by simp [missing]
    exact get?_put_self files .directory (isPrefixOf_home_of_ne notDirectory)
  next differs => exact get?_put_of_ne files .directory differs

/-- Making directories fills in what is missing on the way, and changes nothing else. The last
part stands for what comes behind them.
-/
theorem get?_makeFrom (last : String) {hasMade : Bool} {location : Location}
    {parts : List String} (other : Location)
    : (files.makeFrom hasMade location parts).2.get? other = files.get? other
      ∨ files.get? other = none
        ∧ (files.makeFrom hasMade location parts).2.get? other = some .directory
        ∧ Path.Through location (parts ++ [last]) other := by
  induction parts generalizing files hasMade location with
  | nil => exact Or.inl rfl
  | cons part parts ih =>
      rw [makeFrom]
      cases there : files.get? (step location part) with
      | none =>
          have made := get?_put_directory there other
          rcases @ih (files.put (step location part) .directory) true (step location part)
            with kept | ⟨missing, filled, through⟩
          · by_cases same : step location part = other
            · subst same
              rw [if_pos rfl] at made
              exact Or.inr ⟨there, kept.trans made, .behind through_start⟩
            · rw [if_neg same] at made
              exact Or.inl (kept.trans made)
          · have differs : step location part ≠ other := by
              intro same
              simp [if_pos same, missing] at made
            rw [if_neg differs] at made
            exact Or.inr ⟨made ▸ missing, filled, .behind through⟩
      | some node =>
          cases node with
          | directory =>
              rcases @ih files hasMade (step location part)
                with kept | ⟨missing, filled, through⟩
              · exact Or.inl kept
              · exact Or.inr ⟨missing, filled, .behind through⟩
          | text | binary => exact Or.inl rfl

@[simp] theorem home_makeFrom {hasMade : Bool} {location : Location} {parts : List String}
    : (files.makeFrom hasMade location parts).2.home = files.home := by
  induction parts generalizing files hasMade location with
  | nil => rfl
  | cons part parts ih =>
      rw [makeFrom]
      split <;> simp [ih]

-----------------------------------------------------------------------------------------
-- Files that are written
-----------------------------------------------------------------------------------------

/-- A text can only be written to what is not a directory, at the end of a path through
directories.
-/
theorem writeText_of_ok (wrote : (files.writeText path content).1 = .ok ())
    : path ≠ ""
      ∧ endsInDirectory path = false
      ∧ files.Opens path
      ∧ files.get? (files.target path) ≠ some .directory
      ∧ (files.writeText path content).2 = files.put (files.target path) (.text content) := by
  rw [writeText] at wrote ⊢
  cases located : files.locate path with
  | error error => simp [located] at wrote
  | ok location =>
      obtain ⟨hasText, opens, rfl⟩ := locate_eq_ok_iff.mp located
      refine ⟨hasText, ?_⟩
      simp only [located] at wrote ⊢
      cases there : files.get? (files.target path) with
      | none =>
          cases ends : endsInDirectory path with
          | false => exact ⟨rfl, opens, by simp, rfl⟩
          | true => simp [there, ends] at wrote
      | some node =>
          cases ends : endsInDirectory path with
          | false => cases node <;> simp_all
          | true => cases node <;> simp [there, ends] at wrote

/-- A text cannot be written where a path starts. -/
theorem exists_parts_eq_concat (wrote : (files.writeText path content).1 = .ok ())
    : ∃ front name, parts path = front ++ [name] := by
  obtain ⟨-, -, -, notDirectory, -⟩ := writeText_of_ok wrote
  rcases List.eq_nil_or_concat (parts path) with noParts | split
  · rw [target, noParts] at notDirectory
    exact absurd (get?_start files path) notDirectory
  · simpa only [List.concat_eq_append] using split

/-- Nothing has changed but the file that a path leads to, which holds a text now, and
directories on the way to it, which all exist now.
-/
structure WroteOnly (before : FileSystem) (path content : String) (after : FileSystem)
    : Prop where
  home : after.home = before.home
  file : after.get? (before.target path) = some (.text content)
  directories
    : ∀ location, before.Through path location → after.get? location = some .directory
  elsewhere
    : ∀ location,
        location ≠ before.target path
        → after.get? location = before.get? location
          ∨ before.get? location = none ∧ before.Through path location

/-- A text that is written to a file in directories that have been made changes nothing but
that file and these directories.
-/
theorem wroteOnly_of_ok {directory name : String}
    (split : parts path = parts directory ++ [name])
    (sameStart : isAbsolute path = isAbsolute directory)
    (wrote : ((files.makeDirectories directory).2.writeText path content).1 = .ok ())
    : WroteOnly files path content
        ((files.makeDirectories directory).2.writeText path content).2 := by
  obtain ⟨-, -, opens, notDirectory, after_eq⟩ := writeText_of_ok wrote
  have sameHome : (files.makeDirectories directory).2.home = files.home := home_makeFrom
  simp only [target_of_home sameHome] at notDirectory after_eq
  have notAbove := isPrefixOf_home_of_ne notDirectory
  have sameAfter : ((files.makeDirectories directory).2.writeText path content).2.home
      = files.home := by
    rw [after_eq, home_put, sameHome]
  refine ⟨sameAfter, ?_, ?_, ?_⟩
  · rw [after_eq]
    exact get?_put_self _ _ notAbove
  · intro location through
    have isDirectory := opens location ((through_of_home sameHome).mpr through)
    have differs : files.target path ≠ location := by
      intro same
      exact notDirectory (same ▸ isDirectory)
    rw [after_eq, get?_put_of_ne _ _ differs, isDirectory]
  · intro location differs
    rw [after_eq, get?_put_of_ne _ _ differs.symm]
    have through_iff : files.Through path location
        ↔ Path.Through (files.start directory) (parts directory ++ [name]) location := by
      rw [Through, split, start, start, sameStart]
    rw [through_iff]
    rcases get?_makeFrom name location with kept | ⟨missing, -, through⟩
    · exact Or.inl kept
    · exact Or.inr ⟨missing, through⟩

-----------------------------------------------------------------------------------------
-- What is found afterwards
-----------------------------------------------------------------------------------------

section Found

variable {before after : FileSystem} (wrote : WroteOnly before path content after)
include wrote

theorem WroteOnly.locate_eq (hasText : path ≠ "")
    : after.locate path = .ok (before.target path) := by
  refine locate_eq_ok_iff.mpr ⟨hasText, ?_, target_of_home wrote.home⟩
  intro location through
  exact wrote.directories location ((through_of_home wrote.home).mp through)

/-- A file that has been written exists. -/
theorem WroteOnly.contains_eq (hasText : path ≠ "") (plain : endsInDirectory path = false)
    : after.contains path = true := by
  simp [contains, wrote.locate_eq hasText, wrote.file, plain]

/-- A file that has been written holds what has been written. -/
theorem WroteOnly.readText_eq (hasText : path ≠ "") (plain : endsInDirectory path = false)
    : after.readText path = .ok content := by
  simp [readText, wrote.locate_eq hasText, wrote.file, plain, bind, Except.bind]

end Found

/-- Something of a name is in the directory that a path leads to. -/
structure Holds (files : FileSystem) (directory name : String) : Prop where
  opens : files.Opens directory
  isDirectory : files.get? (files.target directory) = some .directory
  isThere : files.get? (files.target directory ++ [name]) ≠ none

/-- What a directory holds exists under the path of its name in that directory. -/
theorem Holds.contains_join {directory name : String} (holds : files.Holds directory name)
    (isPart : IsPart name) (notUp : name ≠ "..")
    : files.contains (join directory name) = true := by
  have sameStart : files.start (join directory name) = files.start directory := by
    rw [start, start, isAbsolute_join isPart]
  have located : files.locate (join directory name)
      = .ok (files.target directory ++ [name]) := by
    refine locate_eq_ok_iff.mpr ⟨join_ne_empty isPart directory, ?_, ?_⟩
    · intro location through
      rw [Through, sameStart, parts_join isPart, through_concat_iff] at through
      rcases through with through | rfl
      · exact holds.opens location through
      · exact holds.isDirectory
    · rw [target, sameStart, parts_join isPart, follow, List.foldl_append]
      simp [target, follow, step, notUp]
  have plain := endsInDirectory_join isPart directory
  rw [contains, located]
  cases there : files.get? (files.target directory ++ [name]) with
  | none => exact absurd there holds.isThere
  | some node => cases node <;> simp [there, plain]

end FileSystem

end SchemaDoc
