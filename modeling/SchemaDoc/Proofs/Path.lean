import SchemaDoc.FileSystem
import SchemaDoc.Proofs.Lists

/-! The parts of paths that are put together, and of the path to the directory above.
Names in a directory add one part, and the path to the directory above drops the last one.
-/

namespace SchemaDoc.Path

/-- A text is a part of paths: it leads somewhere, and no slash is in it. -/
structure IsPart (part : String) : Prop where
  notEmpty : part ≠ ""
  notDot : part ≠ "."
  noSlash : '/' ∉ part.toList

/-- Every part of a path is one. -/
theorem isPart_of_mem_parts {path part : String} (member : part ∈ parts path)
    : IsPart part := by
  obtain ⟨isSegment, leads⟩ := List.mem_filter.mp member
  obtain ⟨notEmpty, notDot⟩ := of_decide_eq_true leads
  obtain ⟨segment, isCut, rfl⟩ := List.mem_map.mp isSegment
  refine ⟨notEmpty, notDot, ?_⟩
  rw [String.toList_ofList]
  exact not_mem_of_mem_splitOn isCut

-----------------------------------------------------------------------------------------
-- Paths put together
-----------------------------------------------------------------------------------------

@[simp] theorem parts_empty : parts "" = [] := by
  simp [parts, segments]

/-- A slash cuts a path in two. -/
theorem segments_append (front back : String)
    : segments (front ++ "/" ++ back) = segments front ++ segments back := by
  have slash : (front ++ "/" ++ back).toList = front.toList ++ '/' :: back.toList := by simp
  simp only [segments, slash, List.splitOn_append_cons_self, List.map_append]

theorem parts_append (front back : String)
    : parts (front ++ "/" ++ back) = parts front ++ parts back := by
  rw [parts, segments_append, List.filter_append]
  rfl

/-- A part on its own is a path. -/
theorem IsPart.segments_eq {part : String} (isPart : IsPart part) : segments part = [part] := by
  have noSlash : ∀ text ∈ [part.toList], '/' ∉ text := by simpa using isPart.noSlash
  have whole := List.splitOn_intercalate '/' noSlash (List.cons_ne_nil _ _)
  rw [List.intercalate_singleton] at whole
  simp [segments, whole]

theorem IsPart.parts_eq {part : String} (isPart : IsPart part) : parts part = [part] := by
  simp [parts, isPart.segments_eq, isPart.notEmpty, isPart.notDot]

/-- Parts with slashes in between make a path of these parts. -/
theorem parts_intercalate {names : List String} (areParts : ∀ name ∈ names, IsPart name)
    : parts ("/".intercalate names) = names := by
  induction names with
  | nil => exact parts_empty
  | cons name names ih =>
      obtain ⟨isPart, areParts⟩ := List.forall_mem_cons.mp areParts
      cases names with
      | nil => rw [String.intercalate_singleton, isPart.parts_eq]
      | cons next names =>
          rw [String.intercalate_cons_cons, parts_append, isPart.parts_eq, ih areParts]
          rfl

/-- A path that ends in a slash is another one with that slash behind it. -/
theorem eq_append_slash {path : String} (ends : path.toList.getLast? = some '/')
    : ∃ front : String, path = front ++ "/" := by
  obtain ⟨front, split⟩ := List.getLast?_eq_some_iff.mp ends
  refine ⟨String.ofList front, String.toList_inj.mp ?_⟩
  simpa using split

@[simp] theorem join_empty (name : String) : join "" name = name := by
  simp [join]

/-- There is a slash in front of a name in a directory, unless that is the empty path. -/
theorem join_cases (directory name : String)
    : (directory = "" ∧ join directory name = name)
      ∨ ∃ front,
          join directory name = front ++ "/" ++ name
          ∧ (directory = front ∨ directory = front ++ "/") := by
  by_cases isEmpty : directory = ""
  · exact Or.inl ⟨isEmpty, isEmpty ▸ join_empty name⟩
  · right
    by_cases ends : directory.toList.getLast? = some '/'
    · obtain ⟨front, rfl⟩ := eq_append_slash ends
      exact ⟨front, by simp [join], Or.inr rfl⟩
    · exact ⟨directory, by simp [join, isEmpty, ends], Or.inl rfl⟩

section Join

variable {name : String} (isPart : IsPart name) (directory : String)
include isPart

/-- The path of a name in a directory has one more part. -/
theorem parts_join : parts (join directory name) = parts directory ++ [name] := by
  rcases join_cases directory name with ⟨rfl, alone⟩ | ⟨front, joined, directory_eq⟩
  · rw [alone, isPart.parts_eq, parts_empty, List.nil_append]
  · rw [joined, parts_append, isPart.parts_eq]
    rcases directory_eq with rfl | rfl
    · rfl
    · have same : parts (front ++ "/") = parts front := by simpa using parts_append front ""
      rw [same]

/-- The path of a name in a directory does not have to lead to a directory. -/
theorem endsInDirectory_join : endsInDirectory (join directory name) = false := by
  have last : (segments (join directory name)).getLast? = some name := by
    rcases join_cases directory name with ⟨rfl, alone⟩ | ⟨front, joined, -⟩
    · rw [alone, isPart.segments_eq, List.getLast?_singleton]
    · rw [joined, segments_append, isPart.segments_eq, List.getLast?_concat]
  simp [endsInDirectory, last, isPart.notEmpty, isPart.notDot]

theorem join_ne_empty : join directory name ≠ "" := by
  intro isEmpty
  have noParts := parts_join isPart directory
  simp [isEmpty] at noParts

end Join

-----------------------------------------------------------------------------------------
-- Where paths start
-----------------------------------------------------------------------------------------

/-- What is behind a text that is not empty does not change where a path starts. -/
theorem isAbsolute_append {front : String} (notEmpty : front ≠ "") (back : String)
    : isAbsolute (front ++ back) = isAbsolute front := by
  have exists_head : front.toList ≠ [] := by simpa using notEmpty
  rw [isAbsolute, isAbsolute, String.toList_append, List.head?_append_of_ne_nil _ exists_head]

/-- Parts start at the working directory. -/
theorem IsPart.isAbsolute_eq {part : String} (isPart : IsPart part)
    : isAbsolute part = false := by
  rw [isAbsolute, beq_eq_false_iff_ne]
  intro head
  exact isPart.noSlash (List.mem_of_head? head)

theorem isAbsolute_intercalate {names : List String} (areParts : ∀ name ∈ names, IsPart name)
    : isAbsolute ("/".intercalate names) = false := by
  cases names with
  | nil => rfl
  | cons name names =>
      have isPart := areParts name List.mem_cons_self
      cases names with
      | nil => rw [String.intercalate_singleton, isPart.isAbsolute_eq]
      | cons next names =>
          rw [String.intercalate_cons_cons, String.append_assoc,
            isAbsolute_append isPart.notEmpty, isPart.isAbsolute_eq]

/-- The path of a name starts where the path of its directory does. -/
theorem isAbsolute_join {name : String} (isPart : IsPart name) (directory : String)
    : isAbsolute (join directory name) = isAbsolute directory := by
  by_cases isEmpty : directory = ""
  · rw [isEmpty, join_empty, isPart.isAbsolute_eq]
    rfl
  · rw [join]
    split
    · rw [isAbsolute_append isEmpty]
    · rw [String.append_assoc, isAbsolute_append isEmpty]

-----------------------------------------------------------------------------------------
-- The directory above
-----------------------------------------------------------------------------------------

section Parent

variable {path name : String} {front : List String} (split : parts path = front ++ [name])
include split

/-- The path to the directory above is empty only where there is no such path. -/
theorem getD_parent?
    : (parent? path).getD ""
      = (if isAbsolute path then "/" else "") ++ "/".intercalate front := by
  have someParts : (front ++ [name]).isEmpty = false := by simp
  simp only [parent?, split, someParts, List.dropLast_concat, Bool.false_eq_true, false_or]
  generalize (if isAbsolute path then "/" else "") ++ "/".intercalate front = parent
  split
  next isEmpty => exact (String.isEmpty_iff.mp isEmpty).symm
  next => rfl

theorem isPart_front : ∀ part ∈ front, IsPart part := by
  intro part member
  have isIn : part ∈ parts path := split ▸ List.mem_append_left _ member
  exact isPart_of_mem_parts isIn

/-- The path to the directory above drops the last part. -/
theorem parts_parent : parts ((parent? path).getD "") = front := by
  have whole := parts_intercalate (isPart_front split)
  rw [getD_parent? split]
  split
  · simpa [whole] using parts_append "" ("/".intercalate front)
  · rw [String.empty_append, whole]

/-- The path to the directory above starts where the path itself does. -/
theorem isAbsolute_parent : isAbsolute ((parent? path).getD "") = isAbsolute path := by
  rw [getD_parent? split]
  split
  next fromTop =>
    rw [isAbsolute_append (by decide), fromTop]
    rfl
  next fromHome =>
    rw [String.empty_append, isAbsolute_intercalate (isPart_front split)]
    exact (Bool.eq_false_iff.mpr fromHome).symm

end Parent

end SchemaDoc.Path
