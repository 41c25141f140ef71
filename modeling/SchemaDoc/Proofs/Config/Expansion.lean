import Mathlib.Data.Nat.Find
import SchemaDoc.Config.Reading
import SchemaDoc.Proofs.Lists

/-! Placeholders are replaced in one pass from the left.
A text is cut at its placeholders first, with no variable looked up; what is put in for them then
stands between pieces of the text as they are, and no placeholder is looked for in it.
-/

namespace SchemaDoc.Config

-----------------------------------------------------------------------------------------
-- Texts cut at their placeholders
-----------------------------------------------------------------------------------------

/-- A placeholder as it is written. -/
def placeholder (name : String) : List Char := '$' :: '\x7b' :: name.toList ++ ['\x7d']

/-- A text has a placeholder, with some text in front of it and some behind it. A name has at
least one character and no closing brace.
-/
structure HasPlaceholder (text before : List Char) (name : String) (behind : List Char)
    : Prop where
  split : text = before ++ (placeholder name ++ behind)
  named : name.toList ≠ []
  closed : '\x7d' ∉ name.toList

/-- A placeholder that no other one in the text starts in front of. -/
structure HasFirstPlaceholder (text before : List Char) (name : String) (behind : List Char)
    : Prop extends HasPlaceholder text before name behind where
  first
    : ∀ before' name' behind',
        HasPlaceholder text before' name' behind' → before.length ≤ before'.length

/-- A text cut at its placeholders from the left: every one with the text in front of it, and then
the rest. The text behind a placeholder is cut as if it stood alone.
-/
inductive IsCut : List Char → List (List Char × String) → List Char → Prop
  | rest {text} (none : ∀ before name behind, ¬HasPlaceholder text before name behind)
    : IsCut text [] text
  | next {text before name behind pieces rest}
    (first : HasFirstPlaceholder text before name behind) (further : IsCut behind pieces rest)
    : IsCut text ((before, name) :: pieces) rest

/-- What comes in the place of a placeholder: the value of its variable, or the placeholder itself
when the variable is not set.
-/
def substitute (environment : Environment) (name : String) : List Char :=
  (environment name).elim (placeholder name) String.toList

/-- The pieces of a text in a row, each placeholder replaced. -/
def join (environment : Environment) (pieces : List (List Char × String)) (rest : List Char)
    : List Char :=
  pieces.flatMap (fun (before, name) => before ++ substitute environment name) ++ rest

-----------------------------------------------------------------------------------------
-- One cut for every text
-----------------------------------------------------------------------------------------

variable {text before before' behind behind' rest rest' : List Char} {name name' : String}
  {pieces pieces' : List (List Char × String)}

theorem HasPlaceholder.behind_length_lt (has : HasPlaceholder text before name behind)
    : behind.length < text.length := by
  rw [has.split]
  simp [placeholder]
  omega

theorem HasPlaceholder.cons (has : HasPlaceholder text before name behind) (c : Char)
    : HasPlaceholder (c :: text) (c :: before) name behind :=
  ⟨congrArg (c :: ·) has.split, has.named, has.closed⟩

theorem ne_brace_of_mem (closed : '\x7d' ∉ name.toList)
    : ∀ c ∈ name.toList, decide (c ≠ '\x7d') = true := fun _ isMember =>
  decide_eq_true fun isBrace => closed (isBrace ▸ isMember)

theorem takeWhile_name (closed : '\x7d' ∉ name.toList) (behind : List Char)
    : (name.toList ++ '\x7d' :: behind).takeWhile (· ≠ '\x7d') = name.toList := by
  rw [List.takeWhile_append_of_pos (ne_brace_of_mem closed)]
  simp

theorem dropWhile_name (closed : '\x7d' ∉ name.toList) (behind : List Char)
    : (name.toList ++ '\x7d' :: behind).dropWhile (· ≠ '\x7d') = '\x7d' :: behind := by
  rw [List.dropWhile_append_of_pos (ne_brace_of_mem closed)]
  simp

/-- At one place there is only one placeholder: its name ends at the first closing brace. -/
theorem HasPlaceholder.unique (has : HasPlaceholder text before name behind)
    (has' : HasPlaceholder text before' name' behind') (sameLength : before.length = before'.length)
    : before = before' ∧ name = name' ∧ behind = behind' := by
  have same := has.split.symm.trans has'.split
  obtain ⟨rfl, same⟩ := List.append_inj same sameLength
  have sameRest : name.toList ++ '\x7d' :: behind = name'.toList ++ '\x7d' :: behind' := by
    simpa [placeholder] using same
  have sameName : name.toList = name'.toList := by
    rw [← takeWhile_name has.closed behind, sameRest, takeWhile_name has'.closed behind']
  rw [sameName] at sameRest
  exact ⟨rfl, String.toList_inj.mp sameName, (List.cons.inj (List.append_cancel_left sameRest)).2⟩

theorem HasPlaceholder.exists_first (has : HasPlaceholder text before name behind)
    : ∃ before name behind, HasFirstPlaceholder text before name behind := by
  classical
  let starts (length : Nat) : Prop :=
    ∃ before name behind, HasPlaceholder text before name behind ∧ before.length = length
  have some : ∃ length, starts length := ⟨_, before, name, behind, has, rfl⟩
  obtain ⟨before, name, behind, has, isLeast⟩ := Nat.find_spec some
  refine ⟨before, name, behind, has, fun before' name' behind' has' => ?_⟩
  rw [isLeast]
  exact Nat.find_min' some ⟨before', name', behind', has', rfl⟩

/-- Every text can be cut, by induction on its length: what is behind a placeholder is shorter. -/
theorem exists_isCut (text : List Char) : ∃ pieces rest, IsCut text pieces rest := by
  by_cases any : ∃ before name behind, HasPlaceholder text before name behind
  · obtain ⟨_, _, _, has⟩ := any
    obtain ⟨before, name, behind, first⟩ := has.exists_first
    have shorter := first.behind_length_lt
    obtain ⟨pieces, rest, further⟩ := exists_isCut behind
    exact ⟨_, rest, .next first further⟩
  · exact ⟨[], text, .rest fun before name behind has => any ⟨before, name, behind, has⟩⟩
termination_by text.length

/-- A text is cut in one way only. -/
theorem IsCut.unique (cut : IsCut text pieces rest) (cut' : IsCut text pieces' rest')
    : pieces' = pieces ∧ rest' = rest := by
  induction cut generalizing pieces' with
  | rest none =>
      cases cut' with
      | rest => exact ⟨rfl, rfl⟩
      | next first => exact absurd first.toHasPlaceholder (none _ _ _)
  | next first _ ih =>
      cases cut' with
      | rest none => exact absurd first.toHasPlaceholder (none _ _ _)
      | next first' further' =>
          have sameLength :=
            Nat.le_antisymm (first.first _ _ _ first'.toHasPlaceholder)
              (first'.first _ _ _ first.toHasPlaceholder)
          obtain ⟨rfl, rfl, rfl⟩ := first.unique first'.toHasPlaceholder sameLength
          obtain ⟨rfl, rfl⟩ := ih further'
          exact ⟨rfl, rfl⟩

-----------------------------------------------------------------------------------------
-- The pass over a text
-----------------------------------------------------------------------------------------

variable (environment : Environment)

/-- The expansion behind an opening brace that is closed somewhere. -/
theorem expandFrom_open {c : Char} (closed : rest.dropWhile (· ≠ '\x7d') = c :: behind)
    : expandFrom environment ('$' :: '\x7b' :: rest)
      = if (rest.takeWhile (· ≠ '\x7d')).isEmpty then '$' :: expandFrom environment ('\x7b' :: rest)
        else
          substitute environment (String.ofList (rest.takeWhile (· ≠ '\x7d')))
            ++ expandFrom environment behind := by
  rw [expandFrom]
  split
  next _ found found' =>
    obtain ⟨rfl, rfl⟩ := List.cons.inj (found'.symm.trans closed)
    simp only [substitute, placeholder, String.toList_ofList]
  next notClosed => cases notClosed.symm.trans closed

/-- A text without a closing brace stays as it is. -/
theorem expandFrom_of_unclosed (unclosed : '\x7d' ∉ text) : expandFrom environment text = text := by
  fun_induction expandFrom environment text with
  | case1 => rfl
  | case2 rest name c behind closed isEmpty ih => rw [ih (List.not_mem_of_not_mem_cons unclosed)]
  | case3 rest name c behind closed =>
      rw [eq_append_of_dropWhile_ne closed] at unclosed
      simp at unclosed
  | case4 => rfl
  | case5 c rest noPlaceholder ih => rw [ih (List.not_mem_of_not_mem_cons unclosed)]

/-- A character that starts no placeholder is passed over. -/
theorem expandFrom_cons {c : Char}
    (none : ∀ name behind, ¬HasPlaceholder (c :: text) [] name behind)
    : expandFrom environment (c :: text) = c :: expandFrom environment text := by
  by_cases opens : c = '$' ∧ ∃ rest, text = '\x7b' :: rest
  · obtain ⟨rfl, rest, rfl⟩ := opens
    cases found : rest.dropWhile (· ≠ '\x7d') with
    | nil =>
        have unclosed : '\x7d' ∉ rest := fun isMember => by
          simpa using List.dropWhile_eq_nil_iff.mp found _ isMember
        rw [expandFrom_of_unclosed environment, expandFrom_of_unclosed environment] <;>
          simp [unclosed]
    | cons d behind =>
        rw [expandFrom_open environment found, if_pos]
        by_contra isName
        refine none (String.ofList (rest.takeWhile (· ≠ '\x7d'))) behind ⟨?_, ?_, ?_⟩
        · have split := eq_append_of_dropWhile_ne found
          simpa [placeholder] using split
        · simpa using isName
        · rw [String.toList_ofList]
          exact fun isMember => by simpa using List.mem_takeWhile_imp isMember
  · rw [expandFrom]
    rintro rest rfl rfl
    exact opens ⟨rfl, rest, rfl⟩

/-- A placeholder is replaced, and the pass goes on behind it. -/
theorem expandFrom_placeholder (named : name.toList ≠ []) (closed : '\x7d' ∉ name.toList)
    : expandFrom environment (placeholder name ++ behind)
      = substitute environment name ++ expandFrom environment behind := by
  have opened := expandFrom_open environment (dropWhile_name closed behind)
  rw [takeWhile_name closed, if_neg (by simpa using named), String.ofList_toList] at opened
  simpa [placeholder] using opened

/-- By induction on the text. -/
theorem expandFrom_of_none (none : ∀ before name behind, ¬HasPlaceholder text before name behind)
    : expandFrom environment text = text := by
  induction text with
  | nil => rw [expandFrom]
  | cons c text ih =>
      rw [expandFrom_cons environment fun _ _ => none [] _ _]
      refine congrArg (c :: ·) (ih fun before name behind has => ?_)
      exact none (c :: before) name behind (has.cons c)

/-- By induction on the text in front, in which no placeholder starts. -/
theorem HasFirstPlaceholder.expandFrom_eq (first : HasFirstPlaceholder text before name behind)
    : expandFrom environment text
      = before ++ (substitute environment name ++ expandFrom environment behind) := by
  induction before generalizing text with
  | nil =>
      rw [first.split]
      exact expandFrom_placeholder environment first.named first.closed
  | cons c before ih =>
      obtain ⟨⟨rfl, named, closed⟩, least⟩ := first
      have noneHere (name' : String) (behind' : List Char)
          : ¬HasPlaceholder (c :: (before ++ (placeholder name ++ behind))) [] name' behind' :=
        fun has => absurd (least [] name' behind' has) (by simp)
      rw [List.cons_append, expandFrom_cons environment noneHere]
      refine congrArg (c :: ·) (ih ⟨⟨rfl, named, closed⟩, fun before' name' behind' has => ?_⟩)
      simpa using least (c :: before') name' behind' (has.cons c)

theorem IsCut.expandFrom_eq (cut : IsCut text pieces rest)
    : expandFrom environment text = join environment pieces rest := by
  induction cut with
  | rest none => exact expandFrom_of_none environment none
  | next first _ ih =>
      rw [first.expandFrom_eq, ih]
      simp [join]

/-- Where no variable is set, the pieces of a text make up the text. -/
theorem IsCut.join_eq (cut : IsCut text pieces rest)
    (unset : ∀ piece ∈ pieces, environment piece.2 = none)
    : join environment pieces rest = text := by
  induction cut with
  | rest => simp [join]
  | next first _ ih =>
      obtain ⟨unsetFirst, unsetBehind⟩ := List.forall_mem_cons.mp unset
      rw [join] at ih ⊢
      rw [List.flatMap_cons, List.append_assoc, ih unsetBehind, first.split]
      simp [substitute, unsetFirst]

theorem join_congr {environment environment' : Environment}
    (agree : ∀ piece ∈ pieces, environment' piece.2 = environment piece.2)
    : join environment' pieces rest = join environment pieces rest := by
  have same : ∀ piece ∈ pieces,
      piece.1 ++ substitute environment' piece.2 = piece.1 ++ substitute environment piece.2 := by
    intro piece isMember
    rw [substitute, substitute, agree piece isMember]
  rw [join, join, List.flatMap_congr same]

/-- Expansion replaces the placeholders that a single pass from the left meets, each by the value of
its variable, and nothing else. So a text without a placeholder for a variable that is set
stays as it is, and a configuration depends on the variables that its text names only.
-/
theorem expansion_is_one_pass (environment : Environment) (content : String)
    : ∃ pieces rest,
        IsCut content.toList pieces rest
        ∧ (∀ pieces' rest',
            IsCut content.toList pieces' rest' → pieces' = pieces ∧ rest' = rest)
        ∧ (expand environment content).toList = join environment pieces rest
        ∧ ((∀ piece ∈ pieces, environment piece.2 = none)
            → expand environment content = content)
        ∧ ∀ environment' : Environment,
            (∀ piece ∈ pieces, environment' piece.2 = environment piece.2)
            → ofText environment' content = ofText environment content := by
  obtain ⟨pieces, rest, cut⟩ := exists_isCut content.toList
  have expanded (environment : Environment)
      : expand environment content = String.ofList (join environment pieces rest) := by
    rw [expand, cut.expandFrom_eq]
  refine ⟨pieces, rest, cut, fun _ _ => cut.unique, ?_, fun unset => ?_, fun environment' agree => ?_⟩
  · rw [expanded, String.toList_ofList]
  · rw [expanded, cut.join_eq environment unset, String.ofList_toList]
  · rw [ofText, ofText, expanded, expanded, join_congr agree]

/-- What is put in is not looked at again, and a name may hold all but a closing brace. -/
example
    : let environment : Environment := fun name =>
        if name = "A" then some "$\x7bB\x7d" else if name = "$\x7bB" then some "b" else none
      expand environment "$\x7bA\x7d $\x7b\x7d $\x7b$\x7bB\x7d\x7d $\x7bC\x7d $\x7bA"
        = "$\x7bB\x7d $\x7b\x7d b\x7d $\x7bC\x7d $\x7bA" := by
  decide +kernel

end SchemaDoc.Config
