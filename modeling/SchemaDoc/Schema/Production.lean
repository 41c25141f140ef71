import SchemaDoc.Schema.Fault

/-! Productions read a value off the front of a token list, or say what is wrong with it.
How many tokens a production takes at least is a property of it, which lets loops end.
-/

namespace SchemaDoc

/-- A place in a token list: the token before it and the tokens still to come. -/
structure Cursor where
  previous : Token
  rest : List Token
  deriving DecidableEq, Repr

/-- A way to read a value at a cursor. -/
def Production (α : Type) : Type := Cursor → Except Fault (α × Cursor)

namespace Production

variable {α β : Type}

instance : Monad Production where
  pure x := fun cursor => .ok (x, cursor)
  bind p f := fun cursor =>
    match p cursor with
    | .ok (x, cursor) => f x cursor
    | .error fault => .error fault

/-- A production takes at least so many tokens whenever it succeeds. -/
def Takes (count : Nat) (p : Production α) : Prop :=
  ∀ cursor x next, p cursor = .ok (x, next) → next.rest.length + count ≤ cursor.rest.length

/-- A production takes a token whenever it succeeds with a value. -/
def Advances (p : Production (Option α)) : Prop :=
  ∀ cursor x next, p cursor = .ok (some x, next) → next.rest.length < cursor.rest.length

/-- What a sequence of two productions reads, split at the cursor between them. -/
theorem bind_eq_ok {p : Production α} {f : α → Production β} {cursor next : Cursor} {y : β}
    (h : (p >>= f) cursor = .ok (y, next))
    : ∃ x middle, p cursor = .ok (x, middle) ∧ f x middle = .ok (y, next) := by
  simp only [bind] at h
  split at h
  next x middle hp => exact ⟨x, middle, hp, h⟩
  next => simp at h

/-- A value that is given takes no token. -/
theorem takes_pure (x : α) : Takes 0 (pure x : Production α) := by
  intro cursor y next h
  simp only [pure, Except.ok.injEq, Prod.mk.injEq] at h
  simp [h.2]

/-- A sequence takes what its two parts take together. -/
theorem Takes.bind {p : Production α} {f : α → Production β} {m n : Nat}
    (hp : Takes m p) (hf : ∀ x, Takes n (f x))
    : Takes (m + n) (p >>= f) := by
  intro cursor y next h
  obtain ⟨x, middle, first, second⟩ := bind_eq_ok h
  have := hp _ _ _ first
  have := hf x _ _ _ second
  omega

/-- A production also takes at least any smaller number of tokens. -/
theorem Takes.mono {p : Production α} {m n : Nat} (h : Takes n p) (le : m ≤ n)
    : Takes m p := by
  intro cursor x next hp
  have := h _ _ _ hp
  omega

/-- What takes a token advances, whatever its value. -/
theorem Takes.advances {p : Production (Option α)} (h : Takes 1 p) : Advances p := by
  intro cursor x next hp
  have := h _ _ _ hp
  omega

/-- A sequence advances when its second part does. -/
theorem Takes.bind_advances {p : Production α} {f : α → Production (Option β)}
    (hp : Takes 0 p) (hf : ∀ x, Advances (f x))
    : Advances (p >>= f) := by
  intro cursor y next h
  obtain ⟨x, middle, first, second⟩ := bind_eq_ok h
  have := hp _ _ _ first
  have := hf x _ _ _ second
  omega

/-- Stopping without a value advances, since it gives none. -/
theorem advances_none : Advances (pure none : Production (Option α)) := by
  intro cursor x next h
  simp [pure] at h

/-- A choice takes what both of its branches take. -/
theorem Takes.ite {condition : Prop} [Decidable condition] {p q : Production α} {n : Nat}
    (hp : Takes n p) (hq : Takes n q)
    : Takes n (if condition then p else q) := by
  split <;> assumption

/-- A choice advances when both of its branches do. -/
theorem Advances.ite {condition : Prop} [Decidable condition]
    {p q : Production (Option α)} (hp : Advances p) (hq : Advances q)
    : Advances (if condition then p else q) := by
  split <;> assumption

/-- Refuses the token at the cursor. -/
def refuse (expected : Expectation) : Production α := fun cursor =>
  .error (.unexpected expected cursor.rest.head?)

/-- A refusal never succeeds, so it takes any number of tokens. -/
theorem takes_refuse (expected : Expectation) (count : Nat)
    : Takes count (refuse expected : Production α) := by
  intro cursor x next h
  simp [refuse] at h

/-- The kind of the token at the cursor, which stays there. -/
def peekKind : Production TokenKind := fun cursor =>
  .ok (cursor.rest.head?.elim .endOfInput Token.kind, cursor)

theorem takes_peekKind : Takes 0 peekKind := by
  intro cursor x next h
  simp only [peekKind, Except.ok.injEq, Prod.mk.injEq] at h
  simp [h.2]

/-- The token before the cursor. -/
def previous : Production Token := fun cursor => .ok (cursor.previous, cursor)

theorem takes_previous : Takes 0 previous := by
  intro cursor x next h
  simp only [previous, Except.ok.injEq, Prod.mk.injEq] at h
  simp [h.2]

/-- Takes a token that meets a condition and refuses any other. -/
def satisfying (condition : Token → Bool) (expected : Expectation) : Production Token :=
  fun cursor =>
    match cursor.rest with
    | token :: rest =>
        if condition token then .ok (token, ⟨token, rest⟩)
        else .error (.unexpected expected (some token))
    | [] => .error (.unexpected expected none)

theorem takes_satisfying (condition : Token → Bool) (expected : Expectation)
    : Takes 1 (satisfying condition expected) := by
  intro cursor x next h
  unfold satisfying at h
  split at h
  next token rest hr =>
    split at h
    · simp only [Except.ok.injEq, Prod.mk.injEq] at h
      simp [hr, ← h.2]
    · simp at h
  next => simp at h

/-- Takes a token of the kind given. -/
def token (kind : TokenKind) : Production Token := satisfying (·.kind = kind) (.token kind)

theorem takes_token (kind : TokenKind) : Takes 1 (token kind) := takes_satisfying _ _

/-- Takes a token that can name something. -/
def word (expected : Expectation) : Production Token := satisfying Token.isWord expected

theorem takes_word (expected : Expectation) : Takes 1 (word expected) := takes_satisfying _ _

/-- Takes the tokens in front that meet a condition. -/
def takeWhile (condition : Token → Bool) : Production (List Token) := fun cursor =>
  let taken := cursor.rest.takeWhile condition
  .ok (taken, ⟨taken.getLast?.getD cursor.previous, cursor.rest.dropWhile condition⟩)

theorem takes_takeWhile (condition : Token → Bool) : Takes 0 (takeWhile condition) := by
  intro cursor x next h
  simp only [takeWhile, Except.ok.injEq, Prod.mk.injEq] at h
  have := congrArg List.length
    (List.takeWhile_append_dropWhile (p := condition) (l := cursor.rest))
  simp only [List.length_append] at this
  simp only [← h.2]
  omega

/-- Takes a token that meets a condition on it and the token before it, if one is there. -/
def optional (condition : Token → Token → Bool) : Production (Option Token) := fun cursor =>
  match cursor.rest with
  | token :: rest =>
      if condition cursor.previous token then .ok (some token, ⟨token, rest⟩)
      else .ok (none, cursor)
  | [] => .ok (none, cursor)

theorem takes_optional (condition : Token → Token → Bool) : Takes 0 (optional condition) := by
  intro cursor x next h
  unfold optional at h
  split at h
  next token rest hr =>
    split at h
    · simp only [Except.ok.injEq, Prod.mk.injEq] at h
      simp [hr, ← h.2]
    · simp only [Except.ok.injEq, Prod.mk.injEq] at h
      simp [h.2]
  next =>
    simp only [Except.ok.injEq, Prod.mk.injEq] at h
    simp [h.2]

/-- Takes a token of the kind given, if one is there, and says whether it was. -/
def accept (kind : TokenKind) : Production Bool := do
  let taken ← optional fun _ token => token.kind = kind
  pure taken.isSome

theorem takes_accept (kind : TokenKind) : Takes 0 (accept kind) :=
  (takes_optional _).bind fun _ => takes_pure _

/-- Reads values until there is none, each of which takes at least a token. -/
def repeated (p : Production (Option α)) (advances : Advances p) : Production (List α) :=
  fun cursor =>
    match _h : p cursor with
    | .error fault => .error fault
    | .ok (none, next) => .ok ([], next)
    | .ok (some x, next) =>
        match repeated p advances next with
        | .error fault => .error fault
        | .ok (xs, last) => .ok (x :: xs, last)
termination_by cursor => cursor.rest.length
decreasing_by exact advances _ _ _ _h

/-- Reading values until there is none takes no negative number of tokens, provided that
stopping does not either.
-/
theorem takes_repeated {p : Production (Option α)} (advances : Advances p)
    (takes : Takes 0 p)
    : Takes 0 (repeated p advances) := by
  intro cursor xs next h
  fun_induction repeated p advances cursor generalizing xs next with
  | case1 => simp_all
  | case2 cursor middle hp =>
      simp only [Except.ok.injEq, Prod.mk.injEq] at h
      have := takes _ _ _ hp
      simp_all
  | case3 => simp_all
  | case4 cursor x middle hp ys last hr ih =>
      simp only [Except.ok.injEq, Prod.mk.injEq] at h
      have := takes _ _ _ hp
      have := ih _ _ hr
      simp_all
      omega

end Production

end SchemaDoc
