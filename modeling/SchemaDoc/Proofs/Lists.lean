import Mathlib.Data.List.Forall2
import Mathlib.Data.List.TakeWhile

/-! Lists that agree piece by piece, and lists cut or split at one of their elements. -/

namespace SchemaDoc

variable {α β γ : Type} {R : α → β → Prop} {xs : List α} {ys : List β}

theorem map_eq_of_forall₂ {f : α → γ} {g : β → γ} (h : List.Forall₂ R xs ys)
    (same : ∀ x y, R x y → f x = g y)
    : xs.map f = ys.map g := by
  rw [← List.forall₂_eq_eq_eq]
  exact List.rel_map (fun _ _ related => same _ _ related) h

theorem forall₂_map_self {f : α → β} (each : ∀ x ∈ xs, R x (f x))
    : List.Forall₂ R xs (xs.map f) :=
  List.forall₂_map_right_iff.mpr (List.forall₂_same.mpr each)

theorem forall₂_self_map {f : α → β} {R : β → α → Prop} (each : ∀ x ∈ xs, R (f x) x)
    : List.Forall₂ R (xs.map f) xs :=
  List.forall₂_map_left_iff.mpr (List.forall₂_same.mpr each)

theorem forall_mem_of_forall₂ {p : β → Prop} (h : List.Forall₂ R xs ys)
    (each : ∀ x y, R x y → p y)
    : ∀ y ∈ ys, p y := by
  induction h with
  | nil => simp
  | cons head _ ih => exact List.forall_mem_cons.mpr ⟨each _ _ head, ih⟩

theorem forall₂_comp {zs : List γ} {S : β → γ → Prop} {T : α → γ → Prop}
    (h : List.Forall₂ R xs ys) (next : List.Forall₂ S ys zs)
    (both : ∀ x y z, R x y → S y z → T x z)
    : List.Forall₂ T xs zs := by
  induction h generalizing zs with
  | nil =>
      cases next
      exact .nil
  | cons head _ ih =>
      cases next with
      | cons nextHead nextTail => exact .cons (both _ _ _ head nextHead) (ih nextTail)

theorem flatMap_eq_of_forall₂ {f : α → List γ} {g : β → List γ} (h : List.Forall₂ R xs ys)
    (same : ∀ x y, R x y → f x = g y)
    : xs.flatMap f = ys.flatMap g := by
  rw [List.flatMap, List.flatMap, map_eq_of_forall₂ h same]

theorem filterMap_eq_of_forall₂ {f : α → Option γ} {g : β → Option γ}
    (h : List.Forall₂ R xs ys) (same : ∀ x y, R x y → f x = g y)
    : xs.filterMap f = ys.filterMap g := by
  induction h with
  | nil => rfl
  | cons head _ ih => rw [List.filterMap_cons, List.filterMap_cons, same _ _ head, ih]

theorem filter_of_forall₂ {p : α → Bool} {q : β → Bool} (h : List.Forall₂ R xs ys)
    (same : ∀ x y, R x y → p x = q y)
    : List.Forall₂ R (xs.filter p) (ys.filter q) :=
  List.rel_filter (fun _ _ related => Bool.coe_iff_coe.mpr (same _ _ related)) h

theorem rel_find? {p : α → Bool} {q : β → Bool} (h : List.Forall₂ R xs ys)
    (same : ∀ x y, R x y → p x = q y)
    : Option.Rel R (xs.find? p) (ys.find? q) := by
  induction h with
  | nil => exact .none
  | @cons x y _ _ head _ ih =>
      rw [List.find?_cons, List.find?_cons, same x y head]
      cases q y with
      | true => exact .some head
      | false => exact ih

theorem elim_eq_of_rel {f : α → γ} {g : β → γ} (c : γ) {x? : Option α} {y? : Option β}
    (h : Option.Rel R x? y?) (same : ∀ x y, R x y → f x = g y)
    : x?.elim c f = y?.elim c g := by
  cases h with
  | none => rfl
  | some head => exact same _ _ head

theorem takeWhile_append_cons {p : α → Bool} {x : α} (stops : p x = false) (front back : List α)
    : (front ++ x :: back).takeWhile p = front.takeWhile p := by
  induction front with
  | nil => simp [stops]
  | cons y front ih => rw [List.cons_append, List.takeWhile_cons, List.takeWhile_cons, ih]

/-- A run is cut off at the front of a text where the text behind it does not go on with it. -/
theorem takeWhile_append_of_fails {p : α → Bool} {back : List α}
    (fails : ∀ x ∈ back.head?, p x = false) (xs : List α)
    : (xs.takeWhile p ++ back).takeWhile p = xs.takeWhile p := by
  rw [List.takeWhile_append_of_pos fun _ isMember => List.mem_takeWhile_imp isMember]
  cases back with
  | nil => simp
  | cons x back => simp [fails x rfl]

theorem dropWhile_append_of_fails {p : α → Bool} {back : List α}
    (fails : ∀ x ∈ back.head?, p x = false) (xs : List α)
    : (xs.takeWhile p ++ back).dropWhile p = back := by
  rw [List.dropWhile_append_of_pos fun _ isMember => List.mem_takeWhile_imp isMember]
  cases back with
  | nil => simp
  | cons x back => simp [fails x rfl]

/-- What is not in front of an element starts with that element. -/
theorem eq_append_of_dropWhile_ne [DecidableEq α] {x y : α} {back : List α}
    (found : xs.dropWhile (· ≠ x) = y :: back)
    : xs = xs.takeWhile (· ≠ x) ++ x :: back := by
  have isFirst := List.head?_dropWhile_not (· ≠ x) xs
  rw [found] at isFirst
  obtain rfl : y = x := by simpa using isFirst
  rw [← found, List.takeWhile_append_dropWhile]

/-- What a list is cut into at an element no longer holds that element. -/
theorem not_mem_of_mem_splitOn [DecidableEq α] {separator : α} {part : List α}
    (isCut : part ∈ xs.splitOn separator)
    : separator ∉ part := by
  induction xs generalizing part with
  | nil =>
      rw [List.splitOn_nil, List.mem_singleton] at isCut
      simp [isCut]
  | cons x xs ih =>
      rw [List.splitOn, List.splitOnP_cons_eq_if_modifyHead, ← List.splitOn] at isCut
      split at isCut
      next =>
        rcases List.mem_cons.mp isCut with rfl | isBehind
        · exact List.not_mem_nil
        · exact ih isBehind
      next differs =>
        cases cut : xs.splitOn separator with
        | nil => exact absurd cut (List.splitOn_ne_nil separator xs)
        | cons first rest =>
            simp only [cut, List.modifyHead_cons, List.mem_cons] at isCut ih
            rcases isCut with rfl | isBehind
            · have noneFirst := ih (Or.inl rfl)
              simp only [List.mem_cons, not_or]
              exact ⟨fun same => differs (by simp [same]), noneFirst⟩
            · exact ih (Or.inr isBehind)

/-- What is picked from a list and looked up stands in the list itself, and is changed there. -/
theorem exists_modify_filterMap {f : α → Option β} {get : β → Option γ} {i : Nat} {z : γ}
    (found : (xs.filterMap f)[i]?.bind get = some z)
    : ∃ j,
        xs[j]?.bind (fun x => (f x).bind get) = some z
        ∧ ∀ (change : α → α) (change' : β → β),
            (∀ x, f (change x) = (f x).map change')
            → (xs.modify j change).filterMap f = (xs.filterMap f).modify i change' := by
  induction xs generalizing i with
  | nil => simp at found
  | cons x xs ih =>
      cases picked : f x with
      | none =>
          rw [List.filterMap_cons_none picked] at found ⊢
          obtain ⟨j, isThere, changes⟩ := ih found
          refine ⟨j + 1, isThere, fun change change' same => ?_⟩
          rw [List.modify_succ_cons, List.filterMap_cons_none picked, changes change change' same]
      | some y =>
          rw [List.filterMap_cons_some picked] at found ⊢
          cases i with
          | zero =>
              refine ⟨0, by simpa [picked] using found, fun change change' same => ?_⟩
              have changed : f (change x) = some (change' y) := by
                rw [same, picked, Option.map_some]
              rw [List.modify_zero_cons, List.modify_zero_cons, List.filterMap_cons_some changed]
          | succ i =>
              obtain ⟨j, isThere, changes⟩ := ih found
              refine ⟨j + 1, isThere, fun change change' same => ?_⟩
              rw [List.modify_succ_cons, List.modify_succ_cons, List.filterMap_cons_some picked,
                changes change change' same]

/-- A change that leaves what is picked as it is. -/
theorem filterMap_modify {f : α → Option β} {change : α → α} (same : ∀ x, f (change x) = f x)
    (j : Nat)
    : (xs.modify j change).filterMap f = xs.filterMap f := by
  induction xs generalizing j with
  | nil => simp
  | cons x xs ih =>
      cases j with
      | zero => simp only [List.modify_zero_cons, List.filterMap_cons, same]
      | succ j => simp only [List.modify_succ_cons, List.filterMap_cons, ih]

/-- What a list gives, in order: each of its elements gives one value or is passed over. -/
inductive Picks (gives : α → β → Prop) (passed : α → Prop) : List α → List β → Prop
  | nil : Picks gives passed [] []
  | give {x y xs ys} (given : gives x y) (behind : Picks gives passed xs ys)
    : Picks gives passed (x :: xs) (y :: ys)
  | pass {x xs ys} (dropped : passed x) (behind : Picks gives passed xs ys)
    : Picks gives passed (x :: xs) ys

theorem picks_filterMap {gives : α → β → Prop} {passed : α → Prop} {f : α → Option β}
    (given : ∀ x y, f x = some y → gives x y) (dropped : ∀ x, f x = none → passed x) (xs : List α)
    : Picks gives passed xs (xs.filterMap f) := by
  induction xs with
  | nil => exact .nil
  | cons x xs ih =>
      rw [List.filterMap_cons]
      split
      next isNone => exact .pass (dropped x isNone) ih
      next y isSome => exact .give (given x y isSome) ih

theorem picks_map_filter {gives : α → β → Prop} {passed : α → Prop} {p : α → Bool} {f : α → β}
    (given : ∀ x, p x = true → gives x (f x)) (dropped : ∀ x, ¬p x = true → passed x) (xs : List α)
    : Picks gives passed xs ((xs.filter p).map f) := by
  induction xs with
  | nil => exact .nil
  | cons x xs ih =>
      rw [List.filter_cons]
      split
      next kept => exact .give (given x kept) ih
      next fails => exact .pass (dropped x fails) ih

theorem Picks.exists_of_mem {gives : α → β → Prop} {passed : α → Prop} {y : β}
    (picks : Picks gives passed xs ys) (isMember : y ∈ ys)
    : ∃ x ∈ xs, gives x y := by
  induction picks with
  | nil => exact absurd isMember List.not_mem_nil
  | give given _ ih =>
      rcases List.mem_cons.mp isMember with rfl | isBehind
      · exact ⟨_, List.mem_cons_self, given⟩
      · obtain ⟨x, isThere, given⟩ := ih isBehind
        exact ⟨x, List.mem_cons_of_mem _ isThere, given⟩
  | pass _ _ ih =>
      obtain ⟨x, isThere, given⟩ := ih isMember
      exact ⟨x, List.mem_cons_of_mem _ isThere, given⟩

/-- An element is the first of a list that has a property. -/
def IsFirst (p : α → Prop) (xs : List α) (x : α) : Prop :=
  ∃ before after, xs = before ++ x :: after ∧ p x ∧ ∀ y ∈ before, ¬p y

theorem IsFirst.mem {p : α → Prop} {x : α} (first : IsFirst p xs x) : x ∈ xs := by
  obtain ⟨before, after, rfl, -, -⟩ := first
  exact List.mem_append_right before List.mem_cons_self

theorem IsFirst.holds {p : α → Prop} {x : α} (first : IsFirst p xs x) : p x := by
  obtain ⟨_, _, -, holds, -⟩ := first
  exact holds

/-- A search finds the first element that has the property it tests. -/
theorem find?_eq_some_iff_isFirst {q : α → Bool} {p : α → Prop} (tests : ∀ x, q x = true ↔ p x)
    {x : α}
    : xs.find? q = some x ↔ IsFirst p xs x := by
  rw [List.find?_eq_some_iff_append]
  constructor
  · intro searched
    obtain ⟨found, before, after, split, earlier⟩ := searched
    refine ⟨before, after, split, (tests x).mp found, ?_⟩
    intro y isMember holds
    simpa [(tests y).mpr holds] using earlier y isMember
  · intro first
    obtain ⟨before, after, split, holds, earlier⟩ := first
    refine ⟨(tests x).mpr holds, before, after, split, ?_⟩
    intro y isMember
    simpa using mt (tests y).mp (earlier y isMember)

/-- A list has no more than one first element with a property. -/
theorem IsFirst.unique {p : α → Prop} {x y : α} (first : IsFirst p xs x)
    (first' : IsFirst p xs y)
    : x = y := by
  classical
  have tests (z : α) : decide (p z) = true ↔ p z := decide_eq_true_iff
  have found := (find?_eq_some_iff_isFirst tests).mpr first
  have found' := (find?_eq_some_iff_isFirst tests).mpr first'
  exact Option.some.inj (found.symm.trans found')

/-- An element of two lists in a row stands in the first or in the second. -/
theorem split_of_append_eq {front back : List α} {x : α} {first second : List α}
    (same : first ++ second = front ++ x :: back)
    : (∃ more, first = front ++ x :: more ∧ back = more ++ second)
      ∨ ∃ more, front = first ++ more ∧ second = more ++ x :: back := by
  rcases List.append_eq_append_iff.mp same with ⟨more, split, behind⟩ | ⟨more, split, behind⟩
  · exact Or.inr ⟨more, split, behind⟩
  · cases more with
    | nil => exact Or.inr ⟨[], by simpa using split.symm, behind.symm⟩
    | cons y more =>
        obtain ⟨rfl, rest⟩ := List.cons.inj behind
        exact Or.inl ⟨more, split, rest⟩

end SchemaDoc
