import SchemaDoc.Proofs.Grammar.Alignment
import SchemaDoc.Proofs.Walk.Reader

/-! Reading by position does what reading off a token list does.
Whatever a production gives at a cursor, the reading by position gives where the cursor stands, so
none of the steps that must not be taken is taken.
-/

namespace SchemaDoc

-----------------------------------------------------------------------------------------
-- Positions and cursors
-----------------------------------------------------------------------------------------

/-- Tokens that are read by position: those in front of the first end of the input, that end, and
whatever is behind it. No token stops before it starts.
-/
structure Input where
  front : List Token
  ending : Token
  behind : List Token
  noEnd : ∀ token ∈ front, token.kind ≠ .endOfInput
  isEnd : ending.kind = .endOfInput
  ordered : ∀ token ∈ front ++ ending :: behind, token.span.start ≤ token.span.stop

namespace Input

variable {input : Input} {least : Nat} {cursor next : Cursor}

/-- All tokens. -/
def tokens (input : Input) : List Token := input.front ++ input.ending :: input.behind

/-- Where a cursor stands. -/
def position (input : Input) (cursor : Cursor) : Nat := input.front.length - cursor.rest.length

/-- A cursor is reached when it has passed tokens of the input, of which there are at least so many.
-/
def Reaches (input : Input) (least : Nat) (cursor : Cursor) : Prop :=
  ∃ passed,
    input.front = passed ++ cursor.rest
    ∧ least ≤ passed.length
    ∧ ∀ last ∈ passed.getLast?, last = cursor.previous

/-- What reading by position gives where a production gives a result. -/
def outcome {α : Type} (input : Input) (result : Except Fault (α × Cursor))
    : Except Halt (α × Nat) :=
  match result with
  | .ok (x, next) => .ok (x, input.position next)
  | .error fault => .error (.refused (.ofFault fault input.ending))

/-- The token that stands at a cursor. -/
def found (input : Input) (cursor : Cursor) : Token := cursor.rest.head?.getD input.ending

theorem Reaches.mono {fewer : Nat} (reaches : input.Reaches least cursor) (le : fewer ≤ least)
    : input.Reaches fewer cursor := by
  obtain ⟨passed, split, isLeast, isLast⟩ := reaches
  exact ⟨passed, split, Nat.le_trans le isLeast, isLast⟩

theorem Reaches.position_eq (reaches : input.Reaches least cursor)
    : input.position cursor + cursor.rest.length = input.front.length := by
  obtain ⟨passed, split, -, -⟩ := reaches
  rw [position, split, List.length_append]
  omega

/-- Behind the position of a cursor stands what is left to read, and then the end. -/
theorem Reaches.drop_position (reaches : input.Reaches least cursor)
    : input.tokens.drop (input.position cursor)
      = cursor.rest ++ input.ending :: input.behind := by
  obtain ⟨passed, split, -, -⟩ := reaches
  have passedAll : input.position cursor = passed.length := by
    rw [position, split, List.length_append, Nat.add_sub_cancel]
  rw [tokens, passedAll, split, List.append_assoc, List.drop_left]

theorem Reaches.position_lt (reaches : input.Reaches least cursor)
    : input.position cursor < input.tokens.length := by
  have := reaches.position_eq
  rw [tokens, List.length_append, List.length_cons]
  omega

theorem Reaches.getElem?_position (reaches : input.Reaches least cursor)
    : input.tokens[input.position cursor]? = some (input.found cursor) := by
  have atHead := congrArg List.head? reaches.drop_position
  rw [List.head?_drop] at atHead
  rw [atHead, found]
  cases cursor.rest <;> rfl

/-- The kind of the token at a cursor is that of the token at its position. -/
theorem kind_found (input : Input) (cursor : Cursor)
    : (input.found cursor).kind = cursor.rest.head?.elim .endOfInput Token.kind := by
  rw [found]
  cases cursor.rest with
  | nil => exact input.isEnd
  | cons token rest => rfl

/-- In front of the position of a cursor that has passed a token stands the last one. -/
theorem Reaches.getElem?_before (reaches : input.Reaches 1 cursor)
    : 1 ≤ input.position cursor
      ∧ input.tokens[input.position cursor - 1]? = some cursor.previous := by
  obtain ⟨passed, split, notNone, isLast⟩ := reaches
  have passedAll : input.position cursor = passed.length := by
    rw [position, split, List.length_append, Nat.add_sub_cancel]
  refine ⟨passedAll ▸ notNone, ?_⟩
  have isSome : passed[passed.length - 1]? = passed.getLast? := List.getLast?_eq_getElem?.symm
  have notNil : passed ≠ [] := by
    rintro rfl
    simp at notNone
  rw [tokens, passedAll, split, List.append_assoc, List.getElem?_append_left (by omega), isSome,
    List.getLast?_eq_some_getLast notNil]
  exact congrArg some (isLast _ (List.getLast?_eq_some_getLast notNil))

/-- A cursor that tokens lead to from one that is reached is reached. -/
theorem Reaches.passes (reaches : input.Reaches least cursor) {more : List Token}
    (passes : cursor.Passes more next)
    : input.Reaches (least + more.length) next := by
  obtain ⟨passed, split, isLeast, isLast⟩ := reaches
  refine ⟨passed ++ more, ?_, ?_, fun last isMember => ?_⟩
  · rw [split, passes.rest, List.append_assoc]
  · rw [List.length_append]
    omega
  · rw [passes.previous]
    rcases List.eq_nil_or_concat more with rfl | ⟨more, final, rfl⟩
    · exact isLast last (by simpa using isMember)
    · simpa [eq_comm] using isMember

theorem Reaches.span_ordered (reaches : input.Reaches least cursor)
    : (input.found cursor).span.start ≤ (input.found cursor).span.stop :=
  input.ordered _ (List.mem_of_getElem? reaches.getElem?_position)

end Input

-----------------------------------------------------------------------------------------
-- Agreement
-----------------------------------------------------------------------------------------

theorem Production.bind_of_ok {α β : Type} {p : Production α} {f : α → Production β}
    {cursor next : Cursor} {x : α} (read : p cursor = .ok (x, next))
    : (p >>= f) cursor = f x next := by
  simp only [bind, read]

theorem Production.bind_of_error {α β : Type} {p : Production α} {f : α → Production β}
    {cursor : Cursor} {fault : Fault} (failed : p cursor = .error fault)
    : (p >>= f) cursor = .error fault := by
  simp only [bind, failed]

/-- A reading by position agrees with a production at every cursor that has passed at least so many
tokens. The production only ever moves on.
-/
structure Mirrors {α : Type} (least : Nat) (walk : Walk α) (p : Production α) : Prop where
  runs {input : Input} {cursor : Cursor} (reaches : input.Reaches least cursor)
    : walk input.tokens (input.position cursor) = input.outcome (p cursor)
  moves {cursor next : Cursor} {x : α} (read : p cursor = .ok (x, next))
    : ∃ passed, cursor.Passes passed next

namespace Mirrors

open Input

variable {α β : Type} {least : Nat} {walk : Walk α} {p : Production α} {f : α → Walk β}
  {g : α → Production β}

protected theorem pure (x : α) : Mirrors least (pure x) (pure x) := by
  refine ⟨fun _ => rfl, fun read => ?_⟩
  obtain ⟨-, rfl⟩ := Production.pure_eq_ok.mp read
  exact ⟨[], .refl _⟩

theorem bind_moves (first : Mirrors least walk p)
    (second : ∀ x, ∃ least' walk', Mirrors least' walk' (g x)) {cursor next : Cursor} {y : β}
    (read : (p >>= g) cursor = .ok (y, next))
    : ∃ passed, cursor.Passes passed next := by
  obtain ⟨x, middle, readFirst, readSecond⟩ := Production.bind_eq_ok read
  obtain ⟨_, _, mirrors⟩ := second x
  obtain ⟨front, passes⟩ := first.moves readFirst
  obtain ⟨back, passes'⟩ := mirrors.moves readSecond
  exact ⟨front ++ back, passes.trans passes'⟩

/-- Sequences agree when their parts do. The second part may rely on what the first one takes. -/
theorem bind_taking {count : Nat} (takes : Production.Takes count p) (first : Mirrors least walk p)
    (second : ∀ x, Mirrors (least + count) (f x) (g x))
    : Mirrors least (walk >>= f) (p >>= g) := by
  refine ⟨fun {input cursor} reaches => ?_,
    bind_moves first fun x => ⟨_, _, second x⟩⟩
  have run := first.runs reaches
  cases read : p cursor with
  | error fault =>
      rw [read] at run
      rw [Walk.bind_of_error run, Production.bind_of_error read]
      rfl
  | ok result =>
      obtain ⟨x, middle⟩ := result
      rw [read] at run
      obtain ⟨passed, passes⟩ := first.moves read
      have taken := takes _ _ _ read
      rw [passes.rest, List.length_append] at taken
      obtain ⟨all, split, isLeast, isLast⟩ := reaches.passes passes
      rw [Walk.bind_of_ok run, (second x).runs ⟨all, split, by omega, isLast⟩,
        Production.bind_of_ok read]

theorem takes (h : Mirrors least walk p) : Production.Takes 0 p := by
  intro cursor x next read
  obtain ⟨passed, passes⟩ := h.moves read
  rw [passes.rest, List.length_append]
  omega

protected theorem bind (first : Mirrors least walk p) (second : ∀ x, Mirrors least (f x) (g x))
    : Mirrors least (walk >>= f) (p >>= g) :=
  bind_taking first.takes first second

protected theorem ite {condition : Prop} [Decidable condition] {walk' : Walk α} {p' : Production α}
    (yes : Mirrors least walk p) (no : Mirrors least walk' p')
    : Mirrors least (if condition then walk else walk') (if condition then p else p') := by
  split <;> assumption

-----------------------------------------------------------------------------------------
-- Steps
-----------------------------------------------------------------------------------------

section Steps

variable {input : Input} {cursor : Cursor}

theorem peek_run (reaches : input.Reaches least cursor)
    : Walk.peek input.tokens (input.position cursor)
      = .ok (input.found cursor, input.position cursor) := by
  have isInside := reaches.position_lt
  have isMin : min (input.position cursor) (input.tokens.length - 1) = input.position cursor := by
    omega
  rw [Walk.peek, Walk.bind_of_ok (Walk.count_run _ _), Walk.bind_of_ok (Walk.minus_run _ _ _),
    Walk.bind_of_ok (Walk.here_run _ _), if_neg (by omega), isMin,
    Walk.tokenAt_run reaches.getElem?_position]
  omega

theorem peekKind_run (reaches : input.Reaches least cursor)
    : Walk.peekKind input.tokens (input.position cursor)
      = .ok (cursor.kind, input.position cursor) := by
  rw [Walk.peekKind, Walk.bind_of_ok (peek_run reaches), Walk.pure_run, input.kind_found]
  rfl

/-- In front of the end a step takes the token at the cursor. -/
theorem advance_run {token : Token} {rest : List Token} (reaches : input.Reaches least cursor)
    (atToken : cursor.rest = token :: rest)
    : Walk.advance input.tokens (input.position cursor)
      = .ok (token, input.position ⟨token, rest⟩) := by
  have isFound : input.found cursor = token := by simp [Input.found, atToken]
  have front := reaches.position_eq
  have next : input.position ⟨token, rest⟩ = input.position cursor + 1 := by
    rw [atToken, List.length_cons] at front
    simp only [Input.position] at *
    omega
  have inFront : input.position cursor < input.tokens.length - 1 := by
    rw [atToken, List.length_cons] at front
    rw [Input.tokens, List.length_append, List.length_cons]
    omega
  rw [Walk.advance, Walk.bind_of_ok (peek_run reaches), Walk.bind_of_ok (Walk.here_run _ _),
    Walk.bind_of_ok (Walk.count_run _ _), Walk.bind_of_ok (Walk.minus_run (by omega) _ _),
    if_pos inFront, isFound, next]
  rfl

/-- The diagnostic of a token that is found has a length. -/
theorem refuse_run {α : Type} {expected : Expectation} (reaches : input.Reaches least cursor)
    : (Walk.refuse expected : Walk α) input.tokens (input.position cursor)
      = .error
          (.refused (.ofFault (.unexpected expected cursor.rest.head?) input.ending)) := by
  rw [Walk.refuse, Walk.bind_of_ok (peek_run reaches), Walk.refuseAt,
    Walk.bind_of_ok (Walk.minus_run reaches.span_ordered _ _)]
  have isFound : (if (input.found cursor).kind = .endOfInput then none
      else some (input.found cursor)) = cursor.rest.head? := by
    obtain ⟨passed, split, -, -⟩ := reaches
    cases atCursor : cursor.rest with
    | nil => simp [Input.found, atCursor, input.isEnd]
    | cons token rest =>
        have notEnd := input.noEnd token (by simp [split, atCursor])
        simp [Input.found, atCursor, notEnd]
  rw [isFound]
  rfl

end Steps

protected theorem refuse (expected : Expectation)
    : Mirrors least (Walk.refuse expected : Walk α) (Production.refuse expected) := by
  refine ⟨fun reaches => refuse_run reaches, fun read => ?_⟩
  exact absurd read Production.refuse_ne_ok

protected theorem peekKind : Mirrors least Walk.peekKind Production.peekKind := by
  refine ⟨fun reaches => peekKind_run reaches, fun read => ?_⟩
  simp only [Production.peekKind, Except.ok.injEq, Prod.mk.injEq] at read
  exact ⟨[], read.2 ▸ .refl _⟩

/-- A token is taken, or refused, by its kind. -/
protected theorem satisfying {condition : Token → Bool} {expected : Expectation}
    (notEnd : ∀ token, token.kind = .endOfInput → condition token = false)
    : Mirrors least (Walk.satisfying condition expected)
        (Production.satisfying condition expected) := by
  refine ⟨fun {input cursor} reaches => ?_,
    fun read => ⟨_, (Production.satisfying_eq_ok.mp read).2⟩⟩
  rw [Walk.satisfying, Walk.bind_of_ok (peek_run reaches), Production.satisfying]
  cases atCursor : cursor.rest with
  | nil =>
      have isFound : input.found cursor = input.ending := by simp [Input.found, atCursor]
      rw [isFound, notEnd _ input.isEnd, if_neg (by simp), refuse_run reaches, atCursor]
      rfl
  | cons token rest =>
      have isFound : input.found cursor = token := by simp [Input.found, atCursor]
      rw [isFound]
      by_cases holds : condition token = true
      · simp only [if_pos holds, advance_run reaches atCursor]
        rfl
      · simp only [if_neg holds, refuse_run reaches, atCursor]
        rfl

protected theorem token {kind : TokenKind} (notEnd : kind ≠ .endOfInput)
    : Mirrors least (Walk.token kind) (Production.token kind) :=
  .satisfying fun token isEnd => by simp [isEnd, notEnd.symm]

protected theorem word (expected : Expectation)
    : Mirrors least (Walk.word expected) (Production.word expected) :=
  .satisfying fun token isEnd => by simp [Token.isWord, isEnd, TokenKind.isWord]

/-- Behind a token, the one that was passed is there. -/
protected theorem behind : Mirrors (least + 1) Walk.behind Production.previous := by
  refine ⟨fun {input cursor} reaches => ?_, fun read => ?_⟩
  · obtain ⟨notNone, found⟩ := (reaches.mono (Nat.le_add_left 1 least)).getElem?_before
    rw [Walk.behind, Walk.bind_of_ok (Walk.here_run _ _),
      Walk.bind_of_ok (Walk.minus_run notNone _ _), Walk.tokenAt_run found]
    rfl
  · simp only [Production.previous, Except.ok.injEq, Prod.mk.injEq] at read
    exact ⟨[], read.2 ▸ .refl _⟩

theorem optional_moves {condition : Token → Token → Bool} {cursor next : Cursor}
    {taken : Option Token} (read : Production.optional condition cursor = .ok (taken, next))
    : ∃ passed, cursor.Passes passed next :=
  ⟨_, (Production.optional_eq_ok.mp read).2⟩

protected theorem accept {kind : TokenKind} (notEnd : kind ≠ .endOfInput)
    : Mirrors least (Walk.accept kind) (Production.accept kind) := by
  refine ⟨fun {input cursor} reaches => ?_, fun read => ?_⟩
  · rw [Walk.accept, Walk.bind_of_ok (peekKind_run reaches), Production.accept]
    cases atCursor : cursor.rest with
    | nil =>
        have absent : cursor.kind ≠ kind := by simp [Cursor.kind, atCursor, notEnd.symm]
        rw [if_neg absent]
        simp only [bind, Production.optional, atCursor]
        rfl
    | cons token rest =>
        have isKind : cursor.kind = token.kind := by simp [Cursor.kind, atCursor]
        rw [isKind]
        by_cases same : token.kind = kind
        · rw [if_pos same, Walk.bind_of_ok (advance_run reaches atCursor)]
          simp only [bind, Production.optional, atCursor, decide_eq_true same, if_true]
          rfl
        · rw [if_neg same]
          simp only [bind, Production.optional, atCursor, decide_eq_false same]
          rfl
  · obtain ⟨taken, middle, readFirst, readSecond⟩ := Production.bind_eq_ok read
    obtain ⟨-, rfl⟩ := Production.pure_eq_ok.mp readSecond
    exact optional_moves readFirst

-----------------------------------------------------------------------------------------
-- Loops
-----------------------------------------------------------------------------------------

section Loops

variable {input : Input} {cursor next : Cursor}

/-- A cursor with fewer tokens to read stands further on. -/
theorem position_lt_of_length_lt {least' : Nat} (reaches : input.Reaches least cursor)
    (reaches' : input.Reaches least' next) (fewer : next.rest.length < cursor.rest.length)
    : input.position cursor < input.position next := by
  have := reaches.position_eq
  have := reaches'.position_eq
  omega

theorem reaches_of_read (h : Mirrors least walk p) (reaches : input.Reaches least cursor) {x : α}
    (read : p cursor = .ok (x, next))
    : input.Reaches least next := by
  obtain ⟨passed, passes⟩ := h.moves read
  exact (reaches.passes passes).mono (Nat.le_add_right _ _)

/-- A round of a loop that reads less than what is left leads to another one. -/
theorem iterate_again {σ : Type} {round : σ → Walk (Round σ α)} {state state' : σ} {least' : Nat}
    (reaches : input.Reaches least cursor) (reaches' : input.Reaches least' next)
    (fewer : next.rest.length < cursor.rest.length)
    (run : round state input.tokens (input.position cursor)
      = .ok (.again state', input.position next))
    : Walk.iterate round state input.tokens (input.position cursor)
      = Walk.iterate round state' input.tokens (input.position next) :=
  Walk.iterate_of_again run (position_lt_of_length_lt reaches reaches' fewer) reaches'.position_lt

end Loops

/-- A loop with what follows it does what a production does that is a step with the production
again behind it. A step that goes on has to take a token; the induction is on the tokens ahead.
-/
theorem iterate_bind {σ : Type} {round : σ → Walk (Round σ α)}
    {step : σ → Production (Round σ α)} {k : α → Walk β} {g : α → Production β}
    {q : σ → Production β} (rounds : ∀ state, Mirrors least (round state) (step state))
    (advances : ∀ {state state' cursor next},
      step state cursor = .ok (.again state', next) → next.rest.length < cursor.rest.length)
    (unfolds : ∀ state, q state = step state >>= Round.elim q g)
    (follows : ∀ x, Mirrors least (k x) (g x)) (state : σ)
    : Mirrors least (Walk.iterate round state >>= k) (q state) := by
  refine ⟨fun {input cursor} reaches => ?_, fun {cursor next y} read => ?_⟩
  · generalize count : cursor.rest.length = ahead
    induction ahead using Nat.strongRecOn generalizing cursor state with
    | ind ahead ih =>
        subst count
        have run := (rounds state).runs reaches
        rw [unfolds]
        rcases read : step state cursor with fault | ⟨state' | x, next⟩ <;> rw [read] at run
        · rw [Walk.bind_of_error (Walk.iterate_of_error run), Production.bind_of_error read]
          rfl
        · have reaches' := (rounds state).reaches_of_read reaches read
          rw [Walk.bind_congr k (iterate_again reaches reaches' (advances read) run),
            Production.bind_of_ok read]
          exact ih _ (advances read) state' reaches' rfl
        · have reaches' := (rounds state).reaches_of_read reaches read
          rw [Walk.bind_of_ok (Walk.iterate_of_done run), Production.bind_of_ok read]
          exact (follows x).runs reaches'
  · generalize count : cursor.rest.length = ahead
    induction ahead using Nat.strongRecOn generalizing cursor state with
    | ind ahead ih =>
        subst count
        rw [unfolds] at read
        obtain ⟨result, middle, readStep, readBehind⟩ := Production.bind_eq_ok read
        obtain ⟨front, passes⟩ := (rounds state).moves readStep
        obtain ⟨back, passes'⟩ : ∃ back, middle.Passes back next := by
          cases result with
          | again state' => exact ih _ (advances readStep) state' readBehind rfl
          | done x => exact (follows x).moves readBehind
        exact ⟨front ++ back, passes.trans passes'⟩

/-- One more value behind those that are there, if there is one. -/
def repeatedStep (p : Production (Option α)) (xs : List α)
    : Production (Round (List α) (List α)) := do
  match ← p with
  | some x => pure (.again (xs ++ [x]))
  | none => pure (.done xs)

/-- The values that a production repeats, behind those that are there. -/
def repeatedBehind (p : Production (Option α)) (advances : Production.Advances p) (xs : List α)
    : Production (List α) :=
  Production.repeated p advances >>= fun ys => pure (xs ++ ys)

theorem repeatedBehind_eq {p : Production (Option α)} (advances : Production.Advances p)
    (xs : List α)
    : repeatedBehind p advances xs
      = repeatedStep p xs >>= Round.elim (repeatedBehind p advances) pure := by
  funext cursor
  simp only [repeatedBehind, repeatedStep, bind]
  rw [Production.repeated_eq]
  rcases read : p cursor with fault | ⟨_ | x, next⟩
  · rfl
  · simp [pure, Round.elim]
  · simp only [pure, Round.elim, repeatedBehind, bind]
    rcases Production.repeated p advances next with fault | ⟨ys, last⟩
    · rfl
    · simp

theorem repeatedBehind_nil {p : Production (Option α)} (advances : Production.Advances p)
    : repeatedBehind p advances [] = Production.repeated p advances := by
  funext cursor
  rcases read : Production.repeated p advances cursor with fault | ⟨xs, next⟩
  · exact Production.bind_of_error read
  · exact Production.bind_of_ok read

protected theorem collect {walk : Walk (Option α)} {p : Production (Option α)}
    (advances : Production.Advances p) (h : Mirrors least walk p)
    : Mirrors least (Walk.collect walk) (Production.repeated p advances) := by
  rw [Walk.collect, ← Walk.bind_pure (Walk.iterate _ _), ← repeatedBehind_nil]
  refine iterate_bind (fun xs => ?_) (fun {xs ys cursor next} read => ?_)
    (repeatedBehind_eq advances) .pure []
  · exact h.bind fun x => by cases x <;> exact .pure _
  · obtain ⟨_ | x, middle, readFirst, readSecond⟩ := Production.bind_eq_ok read
    · simp [Production.pure_eq_ok] at readSecond
    · obtain ⟨-, rfl⟩ := Production.pure_eq_ok.mp readSecond
      exact advances _ _ _ readFirst

end Mirrors

end SchemaDoc
