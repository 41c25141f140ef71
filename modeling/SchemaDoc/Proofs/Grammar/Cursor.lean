import SchemaDoc.Schema.Reader

/-! How the basic productions move a cursor over a token list.
Each fact is an equivalence, so it serves to analyze a run as well as to build one.
-/

namespace SchemaDoc

namespace Cursor

/-- Moving over the tokens leads from one cursor to the next. -/
structure Passes (cursor : Cursor) (tokens : List Token) (next : Cursor) : Prop where
  rest : cursor.rest = tokens ++ next.rest
  previous : next.previous = tokens.getLast?.getD cursor.previous

/-- The kind of the token at a cursor. -/
def kind (cursor : Cursor) : TokenKind := cursor.rest.head?.elim .endOfInput Token.kind

theorem Passes.refl (cursor : Cursor) : cursor.Passes [] cursor := ⟨rfl, rfl⟩

theorem Passes.eq_of_nil {cursor next : Cursor} (h : cursor.Passes [] next)
    : next = cursor := by
  obtain ⟨rest, previous⟩ := h
  cases cursor
  cases next
  simp_all

theorem Passes.trans {cursor middle next : Cursor} {front back : List Token}
    (first : cursor.Passes front middle) (second : middle.Passes back next)
    : cursor.Passes (front ++ back) next := by
  refine ⟨by rw [first.rest, second.rest, List.append_assoc], ?_⟩
  rw [second.previous, first.previous, List.getLast?_append]
  cases back.getLast? <;> rfl

/-- Between two parts of the tokens that are passed there is a cursor. -/
theorem Passes.split {cursor next : Cursor} {front back : List Token}
    (h : cursor.Passes (front ++ back) next)
    : ∃ middle, cursor.Passes front middle ∧ middle.Passes back next := by
  refine ⟨⟨front.getLast?.getD cursor.previous, back ++ next.rest⟩, ⟨?_, rfl⟩, rfl, ?_⟩
  · rw [h.rest, List.append_assoc]
  · rw [h.previous, List.getLast?_append]
    cases back.getLast? <;> rfl

theorem Passes.uncons {cursor next : Cursor} {token : Token} {tokens : List Token}
    (h : cursor.Passes (token :: tokens) next)
    : ∃ middle, cursor.Passes [token] middle ∧ middle.Passes tokens next :=
  @Passes.split _ _ [token] tokens h

theorem Passes.cons {cursor middle next : Cursor} {token : Token} {tokens : List Token}
    (first : cursor.Passes [token] middle) (second : middle.Passes tokens next)
    : cursor.Passes (token :: tokens) next :=
  first.trans second

/-- Where passing given tokens leads is determined. -/
theorem Passes.unique {cursor next other : Cursor} {tokens : List Token}
    (h : cursor.Passes tokens next) (h' : cursor.Passes tokens other)
    : next = other := by
  have rest : next.rest = other.rest := List.append_cancel_left (h.rest.symm.trans h'.rest)
  have previous := h.previous.trans h'.previous.symm
  cases next
  cases other
  simp_all

theorem Passes.previous_of_getLast? {cursor next : Cursor} {tokens : List Token}
    {last : Token} (h : cursor.Passes tokens next) (isLast : tokens.getLast? = some last)
    : next.previous = last := by
  rw [h.previous, isLast, Option.getD_some]

theorem Passes.kind_eq {cursor next : Cursor} {token : Token} {tokens : List Token}
    (h : cursor.Passes (token :: tokens) next)
    : cursor.kind = token.kind := by
  rw [kind, h.rest]
  rfl

end Cursor

namespace Production

variable {α β : Type}

/-- A sequence reads what its two parts read in turn. -/
theorem bind_eq_ok_iff {p : Production α} {f : α → Production β} {cursor next : Cursor}
    {y : β}
    : (p >>= f) cursor = .ok (y, next)
      ↔ ∃ x middle, p cursor = .ok (x, middle) ∧ f x middle = .ok (y, next) := by
  constructor
  · exact bind_eq_ok
  · rintro ⟨x, middle, first, second⟩
    simp only [bind, first, second]

theorem pure_eq_ok {x y : α} {cursor next : Cursor}
    : (pure x : Production α) cursor = .ok (y, next) ↔ y = x ∧ next = cursor := by
  simp only [pure, Except.ok.injEq, Prod.mk.injEq]
  exact and_congr eq_comm eq_comm

theorem refuse_ne_ok {expected : Expectation} {cursor next : Cursor} {x : α}
    : (refuse expected : Production α) cursor ≠ .ok (x, next) := by
  simp [refuse]

/-- A look at the kind of the next token does not move the cursor. -/
theorem peekKind_bind {f : TokenKind → Production α} {cursor : Cursor}
    : (peekKind >>= f) cursor = f cursor.kind cursor :=
  rfl

/-- A token that meets a condition is taken. -/
theorem satisfying_eq_ok {condition : Token → Bool} {expected : Expectation}
    {cursor next : Cursor} {token : Token}
    : satisfying condition expected cursor = .ok (token, next)
      ↔ condition token = true ∧ cursor.Passes [token] next := by
  unfold satisfying
  constructor
  · intro h
    split at h
    next found rest split =>
      split at h
      next holds =>
        obtain ⟨rfl, rfl⟩ := Prod.mk.inj (Except.ok.inj h)
        exact ⟨holds, by simp [split], rfl⟩
      next => simp at h
    next => simp at h
  · rintro ⟨holds, rest, previous⟩
    cases next
    simp_all

theorem token_eq_ok {kind : TokenKind} {cursor next : Cursor} {found : Token}
    : token kind cursor = .ok (found, next)
      ↔ found.kind = kind ∧ cursor.Passes [found] next := by
  rw [token, satisfying_eq_ok, decide_eq_true_eq]

theorem word_eq_ok {expected : Expectation} {cursor next : Cursor} {found : Token}
    : word expected cursor = .ok (found, next)
      ↔ found.isWord = true ∧ cursor.Passes [found] next := by
  rw [word, satisfying_eq_ok]

/-- An optional token is the one at the cursor, if it meets the condition. -/
theorem optional_eq_ok {condition : Token → Token → Bool} {cursor next : Cursor}
    {taken : Option Token}
    : optional condition cursor = .ok (taken, next)
      ↔ taken = cursor.rest.head?.filter (condition cursor.previous)
        ∧ cursor.Passes taken.toList next := by
  obtain ⟨previous, rest⟩ := cursor
  have stays : Cursor.Passes ⟨previous, rest⟩ [] next ↔ next = ⟨previous, rest⟩ :=
    ⟨Cursor.Passes.eq_of_nil, fun same => same ▸ .refl _⟩
  have moves (token : Token) (tokens : List Token)
      : Cursor.Passes ⟨previous, token :: tokens⟩ [token] next ↔ next = ⟨token, tokens⟩ :=
    ⟨fun passes => passes.unique ⟨rfl, rfl⟩, fun same => same ▸ ⟨rfl, rfl⟩⟩
  cases rest with
  | nil =>
      simp only [optional, Except.ok.injEq, Prod.mk.injEq, List.head?_nil, Option.filter_none]
      constructor
      · rintro ⟨rfl, rfl⟩
        exact ⟨rfl, .refl _⟩
      · rintro ⟨rfl, passes⟩
        exact ⟨rfl, (stays.mp passes).symm⟩
  | cons token tokens =>
      simp only [optional, List.head?_cons, Option.filter_some]
      split
      next =>
        simp only [Except.ok.injEq, Prod.mk.injEq]
        constructor
        · rintro ⟨rfl, rfl⟩
          exact ⟨rfl, rfl, rfl⟩
        · rintro ⟨rfl, passes⟩
          exact ⟨rfl, ((moves token tokens).mp passes).symm⟩
      next =>
        simp only [Except.ok.injEq, Prod.mk.injEq]
        constructor
        · rintro ⟨rfl, rfl⟩
          exact ⟨rfl, .refl _⟩
        · rintro ⟨rfl, passes⟩
          exact ⟨rfl, (stays.mp passes).symm⟩

/-- A token is accepted exactly where it stands. -/
theorem accept_true_iff {kind : TokenKind} {cursor next : Cursor}
    : accept kind cursor = .ok (true, next)
      ↔ ∃ token : Token, token.kind = kind ∧ cursor.Passes [token] next := by
  simp only [accept, bind_eq_ok_iff, pure_eq_ok, optional_eq_ok]
  constructor
  · rintro ⟨taken, middle, ⟨filtered, passes⟩, isSome, rfl⟩
    obtain ⟨token, rfl⟩ := Option.isSome_iff_exists.mp isSome.symm
    exact ⟨token, of_decide_eq_true (Option.filter_eq_some_iff.mp filtered.symm).2, passes⟩
  · rintro ⟨token, is, passes⟩
    exact ⟨some token, next, ⟨by simp [passes.rest, Option.filter_some, is], passes⟩, rfl, rfl⟩

/-- A token is not accepted exactly where it does not stand; then the cursor stays. -/
theorem accept_false_iff {kind : TokenKind} (notEnd : kind ≠ .endOfInput)
    {cursor next : Cursor}
    : accept kind cursor = .ok (false, next) ↔ cursor.kind ≠ kind ∧ next = cursor := by
  have absent : cursor.kind ≠ kind
      ↔ cursor.rest.head?.filter (fun token => decide (token.kind = kind)) = none := by
    cases found : cursor.rest <;> simp [Cursor.kind, found, notEnd.symm]
  simp only [accept, bind_eq_ok_iff, pure_eq_ok, optional_eq_ok, absent]
  constructor
  · rintro ⟨taken, middle, ⟨filtered, passes⟩, isNone, rfl⟩
    obtain rfl : taken = none := by simpa using isNone.symm
    exact ⟨filtered.symm, passes.eq_of_nil⟩
  · rintro ⟨absent, rfl⟩
    exact ⟨none, next, ⟨absent.symm, .refl _⟩, rfl, rfl⟩

/-- The tokens in front that meet a condition are taken, and the next one does not. -/
theorem takeWhile_eq_ok {condition : Token → Bool} {cursor next : Cursor}
    {taken : List Token}
    : takeWhile condition cursor = .ok (taken, next)
      ↔ cursor.Passes taken next
        ∧ (∀ token ∈ taken, condition token = true)
        ∧ ∀ token ∈ next.rest.head?, condition token = false := by
  have split : cursor.rest
      = cursor.rest.takeWhile condition ++ cursor.rest.dropWhile condition :=
    List.takeWhile_append_dropWhile.symm
  simp only [takeWhile, Except.ok.injEq, Prod.mk.injEq]
  constructor
  · rintro ⟨rfl, rfl⟩
    refine ⟨⟨split, rfl⟩, fun token member => ?_, fun token member => ?_⟩
    · exact List.all_eq_true.mp List.all_takeWhile token member
    · have := List.head?_dropWhile_not condition cursor.rest
      rw [Option.mem_def] at member
      simpa [member] using this
  · rintro ⟨passes, meet, stop⟩
    have front : cursor.rest.takeWhile condition = taken := by
      rw [passes.rest, List.takeWhile_append_of_pos meet]
      cases found : next.rest with
      | nil => simp
      | cons token rest => simp [stop token (by simp [found])]
    have back : cursor.rest.dropWhile condition = next.rest := by
      rw [front] at split
      exact List.append_cancel_left (split.symm.trans passes.rest)
    refine ⟨front, ?_⟩
    rw [front, back, ← passes.previous]

/-- A run of a production that is repeated until it gives no value. -/
inductive Repeats (p : Production (Option α)) : Cursor → List α → Cursor → Prop
  | stop {cursor next} (last : p cursor = .ok (none, next)) : Repeats p cursor [] next
  | step {cursor middle next x xs} (head : p cursor = .ok (some x, middle))
    (tail : Repeats p middle xs next)
    : Repeats p cursor (x :: xs) next

/-- Reading values until there is none is a run of the production that reads one. -/
theorem repeated_eq_ok {p : Production (Option α)} (advances : Advances p)
    {cursor next : Cursor} {xs : List α}
    : repeated p advances cursor = .ok (xs, next) ↔ Repeats p cursor xs next := by
  constructor
  · intro h
    fun_induction repeated p advances cursor generalizing xs next with
    | case1 => simp at h
    | case2 cursor middle last =>
        obtain ⟨rfl, rfl⟩ := Prod.mk.inj (Except.ok.inj h)
        exact .stop last
    | case3 => simp at h
    | case4 cursor x middle head ys last tail ih =>
        obtain ⟨rfl, rfl⟩ := Prod.mk.inj (Except.ok.inj h)
        exact .step head (ih tail)
  · intro h
    induction h with
    | stop last =>
        rw [repeated]
        split <;> simp_all
    | step head tail ih =>
        rw [repeated]
        split <;> simp_all

end Production

end SchemaDoc
