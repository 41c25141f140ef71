import SchemaDoc.Schema.Reader

/-! Reading by position in a token list, with every step checked.
A position is a number, so a token may be looked up where none stands, and a loop may stand still.
Each of these ends a reading, and so a reading that ends otherwise does none of them.
-/

namespace SchemaDoc

/-- How a reading by position ends without a value. Either the tokens are refused, or a step is
taken that must not be: a token is looked up where none stands, the position is behind the last
token, a number is taken from a smaller one, or a loop goes on where it stood.
-/
inductive Halt where
  | refused (error : SyntaxError)
  | noToken
  | pastLast
  | belowZero
  | stuck
  deriving DecidableEq, Repr

/-- A way to read a value at a position in a token list. -/
def Walk (α : Type) : Type := List Token → Nat → Except Halt (α × Nat)

/-- What a round of a loop leads to: one more round, or the end of the loop. -/
inductive Round (σ α : Type) where
  | again (state : σ)
  | done (x : α)
  deriving Repr

/-- What to do for one more round, and what to do at the end. -/
def Round.elim {σ α β : Type} (again : σ → β) (done : α → β) : Round σ α → β
  | .again state => again state
  | .done x => done x

namespace Walk

variable {σ α β : Type}

instance : Monad Walk where
  pure x := fun _ position => .ok (x, position)
  bind walk f := fun tokens position =>
    match walk tokens position with
    | .ok (x, next) => f x tokens next
    | .error halt => .error halt

theorem pure_run (x : α) (tokens : List Token) (position : Nat)
    : (pure x : Walk α) tokens position = .ok (x, position) :=
  rfl

theorem bind_of_ok {walk : Walk α} {f : α → Walk β} {tokens : List Token} {position next : Nat}
    {x : α} (run : walk tokens position = .ok (x, next))
    : (walk >>= f) tokens position = f x tokens next := by
  simp only [bind, run]

theorem bind_of_error {walk : Walk α} {f : α → Walk β} {tokens : List Token} {position : Nat}
    {halt : Halt} (run : walk tokens position = .error halt)
    : (walk >>= f) tokens position = .error halt := by
  simp only [bind, run]

theorem bind_congr {walk walk' : Walk α} (f : α → Walk β) {tokens : List Token}
    {position position' : Nat} (same : walk tokens position = walk' tokens position')
    : (walk >>= f) tokens position = (walk' >>= f) tokens position' := by
  simp only [bind, same]

theorem bind_pure (walk : Walk α) : (walk >>= fun x => pure x) = walk := by
  funext tokens position
  rcases run : walk tokens position with halt | ⟨x, next⟩
  · rw [bind_of_error run]
  · rw [bind_of_ok run, pure_run]

-----------------------------------------------------------------------------------------
-- Steps
-----------------------------------------------------------------------------------------

/-- Ends the reading. -/
def halt (halt : Halt) : Walk α := fun _ _ => .error halt

/-- The position that is reached. -/
def here : Walk Nat := fun _ position => .ok (position, position)

/-- The number of tokens. -/
def count : Walk Nat := fun tokens position => .ok (tokens.length, position)

/-- Goes to a position. -/
def moveTo (next : Nat) : Walk Unit := fun _ _ => .ok ((), next)

/-- The difference of two numbers. -/
def minus (larger smaller : Nat) : Walk Nat := fun _ position =>
  if smaller ≤ larger then .ok (larger - smaller, position) else .error .belowZero

theorem here_run (tokens : List Token) (position : Nat)
    : here tokens position = .ok (position, position) :=
  rfl

theorem count_run (tokens : List Token) (position : Nat)
    : count tokens position = .ok (tokens.length, position) :=
  rfl

theorem minus_run {larger smaller : Nat} (le : smaller ≤ larger) (tokens : List Token)
    (position : Nat)
    : minus larger smaller tokens position = .ok (larger - smaller, position) :=
  if_pos le

/-- The token at an index. -/
def tokenAt (index : Nat) : Walk Token := fun tokens position =>
  match tokens[index]? with
  | some token => .ok (token, position)
  | none => .error .noToken

theorem tokenAt_run {tokens : List Token} {index : Nat} {token : Token}
    (isThere : tokens[index]? = some token) (position : Nat)
    : tokenAt index tokens position = .ok (token, position) := by
  rw [tokenAt, isThere]

/-- The token at the position that is reached. -/
def peek : Walk Token := do
  let last ← minus (← count) 1
  let position ← here
  if last < position then halt .pastLast else tokenAt (min position last)

/-- The kind of the token that many places ahead, which is the end of the input if there is none. -/
def peekKindAhead (distance : Nat) : Walk TokenKind := fun tokens position =>
  .ok (tokens[position + distance]?.elim .endOfInput Token.kind, position)

/-- The token before the position that is reached. -/
def behind : Walk Token := do
  let index ← minus (← here) 1
  tokenAt index

/-- Takes the token at the position that is reached. The last token stays there. -/
def advance : Walk Token := do
  let token ← peek
  let position ← here
  let last ← minus (← count) 1
  if position < last then moveTo (position + 1)
  pure token

/-- Refuses a token for a fault. The diagnostic shows the token, so it has to know its length. -/
def refuseAt (token : Token) (fault : Fault) : Walk α := do
  let _ ← minus token.span.stop token.span.start
  halt (.refused ⟨fault, token.line, token.column, token.span⟩)

/-- Refuses the token at the position that is reached. -/
def refuse (expected : Expectation) : Walk α := do
  let token ← peek
  refuseAt token
    (.unexpected expected (if token.kind = .endOfInput then none else some token))

/-- Takes a token that meets a condition and refuses any other. -/
def satisfying (condition : Token → Bool) (expected : Expectation) : Walk Token := do
  let token ← peek
  if condition token then advance else refuse expected

/-- Takes a token of the kind given. -/
def token (kind : TokenKind) : Walk Token := satisfying (·.kind = kind) (.token kind)

/-- Takes a token that can name something. -/
def word (expected : Expectation) : Walk Token := satisfying Token.isWord expected

/-- The kind of the token at the position that is reached. -/
def peekKind : Walk TokenKind := do
  let token ← peek
  pure token.kind

/-- Takes a token of the kind given, if one is there, and says whether it was. -/
def accept (kind : TokenKind) : Walk Bool := do
  let found ← peekKind
  if found = kind then
    let _ ← advance
    pure true
  else pure false

-----------------------------------------------------------------------------------------
-- Loops
-----------------------------------------------------------------------------------------

/-- Rounds up to one that ends the loop. A round that does not must have moved on to a token. -/
def iterate (round : σ → Walk (Round σ α)) (state : σ) : Walk α := fun tokens position =>
  match round state tokens position with
  | .error halt => .error halt
  | .ok (.done x, next) => .ok (x, next)
  | .ok (.again state, next) =>
      if _inside : position < next ∧ next < tokens.length then iterate round state tokens next
      else .error .stuck
termination_by tokens position => tokens.length - position
decreasing_by omega

/-- One more value behind those that are there, if there is one. -/
def collectRound (walk : Walk (Option α)) (xs : List α) : Walk (Round (List α) (List α)) := do
  match ← walk with
  | some x => pure (.again (xs ++ [x]))
  | none => pure (.done xs)

/-- Values up to where there is none. -/
def collect (walk : Walk (Option α)) : Walk (List α) := iterate (collectRound walk) []

section Iterate

variable {round : σ → Walk (Round σ α)} {state state' : σ} {tokens : List Token}
  {position next : Nat} {x : α}

theorem iterate_of_error {halt : Halt} (run : round state tokens position = .error halt)
    : iterate round state tokens position = .error halt := by
  rw [iterate, run]

theorem iterate_of_done (run : round state tokens position = .ok (.done x, next))
    : iterate round state tokens position = .ok (x, next) := by
  rw [iterate, run]

theorem iterate_of_again (run : round state tokens position = .ok (.again state', next))
    (movesOn : position < next) (isInside : next < tokens.length)
    : iterate round state tokens position = iterate round state' tokens next := by
  rw [iterate, run]
  exact dif_pos ⟨movesOn, isInside⟩

end Iterate

end Walk

end SchemaDoc
