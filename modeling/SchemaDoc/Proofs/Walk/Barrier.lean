import SchemaDoc.Proofs.Walk.Reader

/-! Reading by position does not get past the first end of the input.
Two token lists with the same tokens in front of an end are read alike, whatever that end is and
whatever is behind it in each of them. Nothing is cut off before reading and nothing is assumed of
where the tokens stand, so this says of every step that it looks at no token behind an end.
-/

namespace SchemaDoc

-----------------------------------------------------------------------------------------
-- Lists that share what is in front of an end
-----------------------------------------------------------------------------------------

/-- An end of the input behind given tokens, and whatever is behind that end. -/
structure EndBehind (front : List Token) where
  ending : Token
  behind : List Token
  isEnd : ending.kind = .endOfInput

/-- How a reading halts that refuses a token. The diagnostic shows the token, so a token that stops
before it starts cannot be shown.
-/
def Halt.refusing (token : Token) (fault : Fault) : Halt :=
  if token.span.start ≤ token.span.stop then
    .refused ⟨fault, token.line, token.column, token.span⟩
  else .belowZero

namespace EndBehind

variable {front : List Token} {position : Nat}

/-- All tokens. -/
def tokens (input : EndBehind front) : List Token := front ++ input.ending :: input.behind

/-- Two results agree. They are the same, and a position that is reached is not behind the end, or
both refuse the end and expect the same.
-/
inductive Agree {α : Type} (left right : EndBehind front)
    : Except Halt (α × Nat) → Except Halt (α × Nat) → Prop
  | ok {x next} (inside : next ≤ front.length) : left.Agree right (.ok (x, next)) (.ok (x, next))
  | error {halt} : left.Agree right (.error halt) (.error halt)
  | atEnd {expected}
    : left.Agree right (.error (.refusing left.ending (.unexpected expected none)))
        (.error (.refusing right.ending (.unexpected expected none)))

section Agree

variable {α : Type} {left right : EndBehind front} {result result' : Except Halt (α × Nat)}

theorem Agree.eq_or_atEnd (agree : left.Agree right result result')
    : result = result'
      ∨ ∃ expected,
          result = .error (.refusing left.ending (.unexpected expected none))
          ∧ result' = .error (.refusing right.ending (.unexpected expected none)) := by
  cases agree with
  | ok => exact .inl rfl
  | error => exact .inl rfl
  | atEnd => exact .inr ⟨_, rfl, rfl⟩

/-- Results that agree are equal where the ends are. -/
theorem Agree.eq (agree : left.Agree right result result') (same : left.ending = right.ending)
    : result = result' := by
  rcases agree.eq_or_atEnd with equal | ⟨expected, rfl, rfl⟩
  · exact equal
  · rw [same]

end Agree

theorem length_lt (input : EndBehind front) : front.length < input.tokens.length := by
  rw [tokens, List.length_append, List.length_cons]
  omega

theorem getElem?_ending (input : EndBehind front)
    : input.tokens[front.length]? = some input.ending := by
  rw [tokens, List.getElem?_append_right (Nat.le_refl _), Nat.sub_self, List.getElem?_cons_zero]

theorem getElem?_of_lt (input : EndBehind front) (inFront : position < front.length)
    : input.tokens[position]? = some front[position] := by
  rw [tokens, List.getElem?_append_left inFront, List.getElem?_eq_getElem inFront]

end EndBehind

namespace Walk

open EndBehind

variable {α β : Type}

-----------------------------------------------------------------------------------------
-- Steps at a token
-----------------------------------------------------------------------------------------

section Steps

variable {tokens : List Token} {position : Nat} {token : Token}

theorem peek_of_getElem? (isThere : tokens[position]? = some token)
    : peek tokens position = .ok (token, position) := by
  obtain ⟨inside, -⟩ := List.getElem?_eq_some_iff.mp isThere
  have isMin : min position (tokens.length - 1) = position := by omega
  rw [peek, bind_of_ok (count_run _ _), bind_of_ok (minus_run (by omega) _ _),
    bind_of_ok (here_run _ _), if_neg (by omega), isMin, tokenAt_run isThere]

theorem peekKind_of_getElem? (isThere : tokens[position]? = some token)
    : peekKind tokens position = .ok (token.kind, position) := by
  rw [peekKind, bind_of_ok (peek_of_getElem? isThere), pure_run]

/-- In front of the last token a step moves on. -/
theorem advance_of_getElem? (isThere : tokens[position]? = some token)
    (notLast : position + 1 < tokens.length)
    : advance tokens position = .ok (token, position + 1) := by
  rw [advance, bind_of_ok (peek_of_getElem? isThere), bind_of_ok (here_run _ _),
    bind_of_ok (count_run _ _), bind_of_ok (minus_run (by omega) _ _), if_pos (by omega)]
  rfl

theorem refuseAt_run (token : Token) (fault : Fault) (tokens : List Token) (position : Nat)
    : (refuseAt token fault : Walk α) tokens position = .error (.refusing token fault) := by
  rw [refuseAt, Halt.refusing]
  split
  next ordered => rw [bind_of_ok (minus_run ordered _ _), halt]
  next reversed =>
    have short : minus token.span.stop token.span.start tokens position = .error .belowZero :=
      if_neg reversed
    rw [bind_of_error short]

/-- A loop that is sent on from where it stands is stuck. -/
theorem iterate_of_stuck {σ : Type} {round : σ → Walk (Round σ α)} {state state' : σ} {next : Nat}
    (run : round state tokens position = .ok (.again state', next)) (stands : ¬position < next)
    : iterate round state tokens position = .error .stuck := by
  rw [iterate, run]
  exact dif_neg fun movesOn => stands movesOn.1

/-- Looking at the kind of a token is looking at the token. -/
theorem peekKind_bind_eq (f : TokenKind → Walk α)
    : (peekKind >>= f) = peek >>= fun token => f token.kind := by
  funext tokens position
  rcases run : peek tokens position with halt | ⟨token, next⟩
  · have kindRun : peekKind tokens position = .error halt := bind_of_error run
    rw [bind_of_error run, bind_of_error kindRun]
  · have kindRun : peekKind tokens position = .ok (token.kind, next) := by
      rw [peekKind, bind_of_ok run, pure_run]
    rw [bind_of_ok run, bind_of_ok kindRun]

end Steps

-----------------------------------------------------------------------------------------
-- Readings that stop at an end
-----------------------------------------------------------------------------------------

/-- A reading that has so many tokens ahead of it before the end agrees on any two lists that share
what is in front of the end.
-/
def Stops (ahead : Nat) (walk : Walk α) : Prop :=
  ∀ ⦃front : List Token⦄ (left right : EndBehind front) ⦃position : Nat⦄,
    position + ahead ≤ front.length
    → left.Agree right (walk left.tokens position) (walk right.tokens position)

namespace Stops

variable {σ : Type} {ahead : Nat} {walk walk' : Walk α} {f : α → Walk β}

/-- What stops at an end stops also where tokens are ahead. -/
theorem mono (h : Stops 0 walk) : Stops ahead walk :=
  fun _ left right _ inside => h left right (Nat.le_of_add_right_le inside)

protected theorem pure (x : α) : Stops ahead (pure x) :=
  fun _ _ _ _ inside => .ok (Nat.le_of_add_right_le inside)

protected theorem bind (first : Stops ahead walk) (second : ∀ x, Stops 0 (f x))
    : Stops ahead (walk >>= f) := by
  intro front left right position inside
  have agree := first left right inside
  generalize run : walk left.tokens position = result,
    run' : walk right.tokens position = result' at agree
  cases agree with
  | ok inside' =>
      rw [bind_of_ok run, bind_of_ok run']
      exact second _ left right inside'
  | error =>
      rw [bind_of_error run, bind_of_error run']
      exact .error
  | atEnd =>
      rw [bind_of_error run, bind_of_error run']
      exact .atEnd

protected theorem ite {condition : Prop} [Decidable condition] (yes : Stops ahead walk)
    (no : Stops ahead walk')
    : Stops ahead (if condition then walk else walk') := by
  split <;> assumption

/-- A token in front of the end can be taken. -/
protected theorem advance : Stops 1 advance := by
  intro front left right position inFront
  have moves (input : EndBehind front)
      : Walk.advance input.tokens position = .ok (front[position], position + 1) := by
    have := input.length_lt
    exact advance_of_getElem? (input.getElem?_of_lt inFront) (by omega)
  rw [moves left, moves right]
  exact .ok inFront

/-- Where the token at the position is used, it is either in front of the end, or the end itself. -/
theorem peek_bind {f : Token → Walk α} (inFront : ∀ token, Stops 1 (f token))
    (atEnd
      : ∀ ⦃front : List Token⦄ (left right : EndBehind front),
          left.Agree right (f left.ending left.tokens front.length)
            (f right.ending right.tokens front.length))
    : Stops 0 (peek >>= f) := by
  intro front left right position (inside : position ≤ front.length)
  rcases Nat.lt_or_eq_of_le inside with isFront | rfl
  · rw [bind_of_ok (peek_of_getElem? (left.getElem?_of_lt isFront)),
      bind_of_ok (peek_of_getElem? (right.getElem?_of_lt isFront))]
    exact inFront _ left right isFront
  · rw [bind_of_ok (peek_of_getElem? left.getElem?_ending),
      bind_of_ok (peek_of_getElem? right.getElem?_ending)]
    exact atEnd left right

/-- Where only the kind of the token at the position is used, both ends look the same. -/
theorem peekKind_bind {f : TokenKind → Walk α}
    (inFront : ∀ kind, kind ≠ .endOfInput → Stops 1 (f kind)) (atEnd : Stops 0 (f .endOfInput))
    : Stops 0 (peekKind >>= f) := by
  rw [peekKind_bind_eq]
  refine peek_bind (fun token => ?_) fun front left right => ?_
  · by_cases isEnd : token.kind = .endOfInput
    · exact isEnd ▸ atEnd.mono
    · exact inFront _ isEnd
  · rw [left.isEnd, right.isEnd]
    exact atEnd left right (Nat.le_refl _)

protected theorem peekKind : Stops 0 peekKind :=
  peek_bind (fun _ => .pure _) fun _ left right => by
    rw [left.isEnd, right.isEnd]
    exact .ok (Nat.le_refl _)

protected theorem refuseAt (token : Token) (fault : Fault)
    : Stops 0 (refuseAt token fault : Walk α) := by
  intro front left right position _
  rw [refuseAt_run, refuseAt_run]
  exact .error

protected theorem refuse (expected : Expectation) : Stops 0 (refuse expected : Walk α) :=
  peek_bind (fun _ => (Stops.refuseAt _ _).mono) fun _ left right => by
    rw [refuseAt_run, refuseAt_run, if_pos left.isEnd, if_pos right.isEnd]
    exact .atEnd

/-- What takes no end of the input does not get past one. -/
protected theorem satisfying {condition : Token → Bool} {expected : Expectation}
    (notEnd : ∀ token, token.kind = .endOfInput → condition token = false)
    : Stops 0 (satisfying condition expected) :=
  peek_bind (fun _ => .ite .advance (Stops.refuse _).mono) fun _ left right => by
    rw [notEnd _ left.isEnd, notEnd _ right.isEnd]
    exact Stops.refuse _ left right (Nat.le_refl _)

protected theorem token {kind : TokenKind} (notEnd : kind ≠ .endOfInput) : Stops 0 (token kind) :=
  .satisfying fun token isEnd => by simp [isEnd, notEnd.symm]

protected theorem word (expected : Expectation) : Stops 0 (word expected) :=
  .satisfying fun token isEnd => by simp [Token.isWord, isEnd, TokenKind.isWord]

protected theorem accept {kind : TokenKind} (notEnd : kind ≠ .endOfInput)
    : Stops 0 (accept kind) := by
  refine peekKind_bind (fun _ _ => .ite (.bind .advance fun _ => .pure _) (.pure _)) ?_
  rw [if_neg notEnd.symm]
  exact .pure _

/-- The token before a position that is not behind the end is in front of it. -/
protected theorem behind : Stops 0 behind := by
  intro front left right position inside
  rcases position with _ | before
  · exact .error
  · have looks (input : EndBehind front)
        : Walk.behind input.tokens (before + 1) = .ok (front[before], before + 1) := by
      rw [Walk.behind, bind_of_ok (here_run _ _), bind_of_ok (minus_run (by omega) _ _)]
      exact tokenAt_run (input.getElem?_of_lt inside) _
    rw [looks left, looks right]
    exact .ok inside

protected theorem minus (larger smaller : Nat) {f : Nat → Walk α} (h : ∀ n, Stops ahead (f n))
    : Stops ahead (minus larger smaller >>= f) := by
  intro front left right position inside
  by_cases le : smaller ≤ larger
  · rw [bind_of_ok (minus_run le _ _), bind_of_ok (minus_run le _ _)]
    exact h _ left right inside
  · have short (tokens : List Token) : minus larger smaller tokens position = .error .belowZero :=
      if_neg le
    rw [bind_of_error (short _), bind_of_error (short _)]
    exact .error

/-- A loop stops at an end when its rounds do, by induction on the tokens in front of the end. The
lists may have different lengths, but no round gets to where they differ.
-/
protected theorem iterate {round : σ → Walk (Round σ α)} (rounds : ∀ state, Stops 0 (round state))
    (state : σ)
    : Stops 0 (iterate round state) := by
  intro front left right position inside
  generalize count : front.length - position = ahead
  induction ahead using Nat.strongRecOn generalizing position state with
  | ind ahead ih =>
      have agree := rounds state left right inside
      generalize run : round state left.tokens position = result,
        run' : round state right.tokens position = result' at agree
      cases agree with
      | error =>
          rw [iterate_of_error run, iterate_of_error run']
          exact .error
      | atEnd =>
          rw [iterate_of_error run, iterate_of_error run']
          exact .atEnd
      | @ok result next inside' =>
          cases result with
          | done x =>
              rw [iterate_of_done run, iterate_of_done run']
              exact .ok inside'
          | again state' =>
              by_cases movesOn : position < next
              · rw [iterate_of_again run movesOn (Nat.lt_of_le_of_lt inside' left.length_lt),
                  iterate_of_again run' movesOn (Nat.lt_of_le_of_lt inside' right.length_lt)]
                exact ih _ (by omega) state' inside' rfl
              · rw [iterate_of_stuck run movesOn, iterate_of_stuck run' movesOn]
                exact .error

protected theorem collect {walk : Walk (Option α)} (h : Stops 0 walk) : Stops 0 (collect walk) :=
  .iterate (fun _ => h.bind fun x => by cases x <;> exact .pure _) []

-----------------------------------------------------------------------------------------
-- Attributes
-----------------------------------------------------------------------------------------

protected theorem group {opening closing : TokenKind} (notEnd : opening ≠ .endOfInput)
    : Stops 0 (group opening closing) := by
  refine .bind (.token notEnd) fun _ => .iterate (fun depth => .ite (.pure _) ?_) 1
  refine peekKind_bind (fun kind notEnd => ?_) (Stops.refuse _)
  rw [if_neg notEnd]
  exact .ite (.bind .advance fun _ => .pure _)
    (.ite (.minus _ _ fun _ => .bind .advance fun _ => .pure _) (.bind .advance fun _ => .pure _))

protected theorem dottedName (expected : Expectation) : Stops 0 (dottedName expected) := by
  have segment : Stops 0 nameSegment :=
    .bind (.accept (by decide)) fun _ => .ite (.bind (.word _) fun _ => .pure _) (.pure _)
  exact .bind (.word _) fun _ => segment.collect.bind fun _ => .pure _

protected theorem nameWithArguments (expected : Expectation)
    : Stops 0 (nameWithArguments expected) :=
  .bind (.dottedName _) fun _ => .bind .peekKind fun _ =>
    .ite (.bind (.group (by decide)) fun _ => .pure _) (.pure _)

protected theorem itemsUntil {closing : TokenKind} (notEnd : closing ≠ .endOfInput)
    {item : Walk α} (h : Stops 0 item)
    : Stops 0 (itemsUntil closing item) := by
  refine .bind (.iterate (fun _ => ?_) []) fun _ => .bind (.token notEnd) fun _ => .pure _
  exact .bind .peekKind fun _ => .ite (.pure _) (h.bind fun _ =>
    .bind (.accept (by decide)) fun _ => .ite (.pure _) (.pure _))

protected theorem listItem : Stops 0 listItem :=
  .bind .peekKind fun _ =>
    .ite (.bind (.token (by decide)) fun _ => .pure _)
      (.bind (.nameWithArguments _) fun _ => .pure _)

protected theorem number : Stops 0 number := by
  refine .bind (.token (by decide)) fun literal => ?_
  split
  · exact .pure _
  · exact .refuseAt _ _

protected theorem value : Stops 0 value := by
  refine .bind .peekKind fun kind => ?_
  split
  · exact .bind (.token (by decide)) fun _ => .pure _
  · exact .number
  · exact .bind (.token (by decide)) fun _ => .pure _
  · exact .bind (.token (by decide)) fun _ =>
      .bind (.itemsUntil (by decide) .listItem) fun _ => .pure _
  · exact .bind (.nameWithArguments _) fun _ => .pure _

/-- At an end there is no value. -/
theorem value_at_end {front : List Token} (input : EndBehind front)
    : value input.tokens front.length
      = .error (.refusing input.ending (.unexpected .attributeValue none)) := by
  have notWord : input.ending.isWord = false := by
    simp [Token.isWord, input.isEnd, TokenKind.isWord]
  have refused : word .attributeValue input.tokens front.length
      = .error (.refusing input.ending (.unexpected .attributeValue none)) := by
    rw [Walk.word, satisfying, bind_of_ok (peek_of_getElem? input.getElem?_ending), notWord,
      if_neg Bool.false_ne_true, Walk.refuse, bind_of_ok (peek_of_getElem? input.getElem?_ending),
      if_pos input.isEnd, refuseAt_run]
  rw [Walk.value, bind_of_ok (peekKind_of_getElem? input.getElem?_ending), input.isEnd]
  exact bind_of_error (bind_of_error (bind_of_error refused))

/-- At an end there is no name of an argument, whatever is behind the end. -/
theorem argumentName_at_end {front : List Token} (input : EndBehind front)
    : argumentName input.tokens front.length = .ok (none, front.length) := by
  rw [argumentName, bind_of_ok (peekKind_of_getElem? input.getElem?_ending), input.isEnd]
  rfl

/-- In front of the end, the token that is one further on is in front of it too or is the end, which
is no colon. So a name and its colon are both in front of the end.
-/
protected theorem argumentName : Stops 0 argumentName := by
  intro front left right position (inside : position ≤ front.length)
  rcases Nat.lt_or_eq_of_le inside with isFront | rfl
  · have kind (input : EndBehind front)
        : peekKind input.tokens position = .ok (front[position].kind, position) :=
      peekKind_of_getElem? (input.getElem?_of_lt isFront)
    rw [argumentName, bind_of_ok (kind left), bind_of_ok (kind right)]
    rcases Nat.lt_or_eq_of_le (Nat.succ_le_of_lt isFront) with isFront' | atEnd
    · have next (input : EndBehind front) : peekKindAhead 1 input.tokens position
          = .ok (front[position + 1].kind, position) := by
        rw [peekKindAhead, input.getElem?_of_lt isFront']
        rfl
      rw [bind_of_ok (next left), bind_of_ok (next right)]
      have taken : Stops 2 (do
          let name ← Walk.advance
          let _ ← Walk.advance
          pure (some name)) := by
        intro front left right position inside
        have moves (input : EndBehind front) : Walk.advance input.tokens position
            = .ok (front[position], position + 1) := by
          have := input.length_lt
          exact advance_of_getElem? (input.getElem?_of_lt (by omega)) (by omega)
        rw [bind_of_ok (moves left), bind_of_ok (moves right)]
        exact Stops.bind Stops.advance (fun _ => .pure _) left right inside
      exact Stops.ite taken (.pure _) left right isFront'
    · have next (input : EndBehind front) : peekKindAhead 1 input.tokens position
          = .ok (.endOfInput, position) := by
        rw [peekKindAhead, show position + 1 = front.length from atEnd, input.getElem?_ending]
        exact congrArg (fun kind => Except.ok (kind, position)) input.isEnd
      rw [bind_of_ok (next left), bind_of_ok (next right)]
      simp only [reduceCtorEq, and_false, if_false]
      exact .ok inside
  · rw [argumentName_at_end left, argumentName_at_end right]
    exact .ok (Nat.le_refl _)

/-- An argument notes where it begins before it is known whether there is one. -/
protected theorem argument : Stops 0 argument := by
  refine peek_bind (fun _ => mono ?_) fun front left right => ?_
  · exact .bind .argumentName fun _ => .bind .value fun _ => .bind .behind fun _ => .pure _
  · rw [bind_of_ok (argumentName_at_end left), bind_of_ok (argumentName_at_end right),
      bind_of_error (value_at_end left), bind_of_error (value_at_end right)]
    exact .atEnd

protected theorem attributeBody : Stops 0 attributeBody := by
  have listed : Stops 0 arguments :=
    .bind (.accept (by decide)) fun _ => .ite (.itemsUntil (by decide) .argument) (.pure _)
  exact .bind (.dottedName _) fun _ => listed.bind fun _ => .bind .behind fun _ => .pure _

protected theorem attributes : Stops 0 attributes := by
  refine .collect ?_
  exact .bind (.accept (by decide)) fun _ => .ite (.bind .attributeBody fun _ => .pure _) (.pure _)

-----------------------------------------------------------------------------------------
-- Declarations
-----------------------------------------------------------------------------------------

protected theorem leadingComments : Stops 0 leadingComments := by
  refine .collect (peekKind_bind (fun _ _ => ?_) ?_)
  · exact .ite (.bind .advance fun _ => .pure _) (.pure _)
  · rw [if_neg (by decide)]
    exact .pure _

/-- An end is no comment, whatever its line is. -/
protected theorem trailingComment : Stops 0 trailingComment := by
  refine .bind .behind fun _ => peek_bind (fun _ => ?_) fun front left right => ?_
  · exact .ite (.bind .advance fun _ => .pure _) (.pure _)
  · simp only [left.isEnd, right.isEnd, reduceCtorEq, false_and, if_false]
    exact .ok (Nat.le_refl _)

protected theorem fieldType : Stops 0 fieldType :=
  .bind (.word _) fun _ => .bind .peekKind fun _ =>
    .ite
      (.bind (.token (by decide)) fun _ => .bind (.token (by decide)) fun _ =>
        .bind (.token (by decide)) fun _ => .pure _)
      (.pure _)

protected theorem listMark : Stops 0 listMark :=
  .bind (.accept (by decide)) fun _ => .ite (.bind (.token (by decide)) fun _ => .pure _) (.pure _)

protected theorem field (documentation : Option Documentation) : Stops 0 (field documentation) :=
  .bind (.word _) fun _ => .bind .fieldType fun _ => .bind .listMark fun _ =>
    .bind (.accept (by decide)) fun _ => .bind .attributes fun _ => .bind .behind fun _ =>
    .bind .trailingComment fun _ => .pure _

protected theorem enumValue (documentation : Option Documentation)
    : Stops 0 (enumValue documentation) :=
  .bind (.word _) fun _ => .bind .attributes fun _ => .bind .trailingComment fun _ => .pure _

protected theorem nextEntry (expected : Expectation) {member : Option Documentation → Walk α}
    (h : ∀ documentation, Stops 0 (member documentation))
    : Stops 0 (nextEntry expected member) :=
  .bind .leadingComments fun _ => .bind .peekKind fun _ =>
    .ite (.pure _)
      (.ite
        (.bind (.token (by decide)) fun _ => .bind .attributeBody fun _ =>
          .bind .trailingComment fun _ => .pure _)
        (.ite (.bind (h _) fun _ => .pure _) (.refuse _)))

protected theorem block {keyword : TokenKind} (notEnd : keyword ≠ .endOfInput)
    (named expected : Expectation) {member : Option Documentation → Walk α}
    (h : ∀ documentation, Stops 0 (member documentation))
    : Stops 0 (block keyword named expected member) :=
  .bind (.token notEnd) fun _ => .bind (.word _) fun _ => .bind (.token (by decide)) fun _ =>
    .bind .trailingComment fun _ => .bind (.collect (.nextEntry _ h)) fun _ =>
    .bind (.token (by decide)) fun _ => .pure _

protected theorem ignoredBlock {keyword : TokenKind} (notEnd : keyword ≠ .endOfInput)
    : Stops 0 (ignoredBlock keyword) :=
  .bind (.token notEnd) fun _ => .bind (.word _) fun _ => .group (by decide)

protected theorem nextDeclaration : Stops 0 nextDeclaration := by
  have aModel (documentation : Option Documentation) : Stops 0 (model documentation) :=
    .bind (.block (by decide) _ _ .field) fun _ => .pure _
  have anEnum (documentation : Option Documentation) : Stops 0 (enum documentation) :=
    .bind (.block (by decide) _ _ .enumValue) fun _ => .pure _
  refine .bind .leadingComments fun _ => .bind .peekKind fun kind => ?_
  split
  · exact .pure _
  · exact .bind (aModel _) fun _ => .pure _
  · exact .bind (anEnum _) fun _ => .pure _
  · exact .bind (.ignoredBlock (by decide)) fun _ => .pure _
  · exact .bind (.ignoredBlock (by decide)) fun _ => .pure _
  · exact .refuse _

/-- A whole schema is read without a look behind the first end. -/
protected theorem schema : Stops 0 schema :=
  .bind (.collect .nextDeclaration) fun _ => .pure _

end Stops

end Walk

end SchemaDoc
