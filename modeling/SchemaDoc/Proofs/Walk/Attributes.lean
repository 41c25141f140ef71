import SchemaDoc.Proofs.Grammar.Repetition
import SchemaDoc.Proofs.Walk.Agreement

/-! Attributes are read by position as they are read off a token list.
The loops over groups and over items come first, since each of them ends in its own way.
-/

namespace SchemaDoc.Mirrors

variable {α : Type} {least : Nat}

-----------------------------------------------------------------------------------------
-- Groups
-----------------------------------------------------------------------------------------

section Group

variable {opening closing : TokenKind}

/-- How many groups are open behind a token, of so many and one more in front of it. -/
def openBehind (opening closing : TokenKind) (depth : Nat) (token : Token) : Nat :=
  if token.kind = opening then depth + 2 else if token.kind = closing then depth else depth + 1

/-- A token of a group opens one more group, closes one, or does neither. -/
def groupStep (opening closing : TokenKind) : Nat → Production (Round Nat Unit)
  | 0 => pure (.done ())
  | depth + 1 => fun cursor =>
      match cursor.rest with
      | [] => .error (.unexpected (.token closing) none)
      | token :: rest => .ok (.again (openBehind opening closing depth token), ⟨token, rest⟩)

/-- What is left of a group in which so many groups are open. -/
def groupBehind (opening closing : TokenKind) : Nat → Production Unit
  | 0 => pure ()
  | depth + 1 => fun cursor => Production.skipGroup opening closing depth cursor.rest

theorem groupBehind_eq (depth : Nat)
    : groupBehind opening closing depth
      = groupStep opening closing depth >>= Round.elim (groupBehind opening closing) pure := by
  funext cursor
  obtain ⟨last, rest⟩ := cursor
  cases depth with
  | zero => rfl
  | succ depth =>
      cases rest with
      | nil => rfl
      | cons token rest =>
          simp only [groupBehind, groupStep, openBehind, bind, Round.elim]
          rw [Production.skipGroup.eq_def]
          dsimp only
          split
          next => rfl
          next =>
            split
            next => cases depth <;> rfl
            next => rfl

theorem groupRound (depth : Nat)
    : Mirrors least (Walk.groupRound opening closing depth) (groupStep opening closing depth) := by
  cases depth with
  | zero => exact .pure _
  | succ depth =>
      refine ⟨fun {input cursor} reaches => ?_, fun {cursor next round} read => ?_⟩
      · rw [Walk.groupRound, if_neg (Nat.succ_ne_zero depth),
          Walk.bind_of_ok (peekKind_run reaches)]
        obtain ⟨last, _ | ⟨token, rest⟩⟩ := cursor
        · have kind : Cursor.kind ⟨last, []⟩ = .endOfInput := rfl
          rw [if_pos kind, refuse_run reaches]
          rfl
        · have kind : Cursor.kind ⟨last, token :: rest⟩ = token.kind := rfl
          have notEnd : token.kind ≠ .endOfInput := by
            obtain ⟨passed, split, -, -⟩ := reaches
            exact input.noEnd token (by simp [split])
          have taken := advance_run reaches rfl
          have result : input.outcome (groupStep opening closing (depth + 1) ⟨last, token :: rest⟩)
              = .ok (.again (openBehind opening closing depth token),
                  input.position ⟨token, rest⟩) :=
            rfl
          rw [kind, if_neg notEnd, result, openBehind]
          by_cases opens : token.kind = opening
          · rw [if_pos opens, if_pos opens, Walk.bind_of_ok taken, Walk.pure_run]
          rw [if_neg opens, if_neg opens]
          by_cases closes : token.kind = closing
          · rw [if_pos closes, if_pos closes, Walk.bind_of_ok (Walk.minus_run (by omega) _ _),
              Walk.bind_of_ok taken, Walk.pure_run, Nat.add_sub_cancel]
          · rw [if_neg closes, if_neg closes, Walk.bind_of_ok taken, Walk.pure_run]
      · obtain ⟨last, _ | ⟨token, rest⟩⟩ := cursor
        · simp [groupStep] at read
        · obtain ⟨-, rfl⟩ := Prod.mk.inj (Except.ok.inj read)
          exact ⟨[token], rfl, rfl⟩

theorem length_lt_of_groupStep {depth depth' : Nat} {cursor next : Cursor}
    (read : groupStep opening closing depth cursor = .ok (.again depth', next))
    : next.rest.length < cursor.rest.length := by
  cases depth with
  | zero => simp [groupStep, Production.pure_eq_ok] at read
  | succ depth =>
      obtain ⟨last, _ | ⟨token, rest⟩⟩ := cursor
      · simp [groupStep] at read
      · obtain ⟨-, rfl⟩ := Prod.mk.inj (Except.ok.inj read)
        exact Nat.lt_succ_self _

protected theorem group (notEnd : opening ≠ .endOfInput)
    : Mirrors least (Walk.group opening closing) (Production.group opening closing) := by
  refine Mirrors.bind (.token notEnd) fun _ => ?_
  rw [← Walk.bind_pure (Walk.iterate _ _)]
  exact iterate_bind groupRound length_lt_of_groupStep groupBehind_eq .pure 1

end Group

-----------------------------------------------------------------------------------------
-- Items
-----------------------------------------------------------------------------------------

section Items

variable {closing : TokenKind} {walk : Walk α} {item : Production α} {cursor : Cursor}

/-- One more item behind those that are there. Only a comma lets another one follow. -/
def itemStep (closing : TokenKind) (item : Production α) (xs : List α)
    : Production (Round (List α) (List α)) := do
  let kind ← Production.peekKind
  if kind = closing then pure (.done xs)
  else
    let x ← item
    if ← Production.accept .comma then pure (.again (xs ++ [x])) else pure (.done (xs ++ [x]))

/-- A closing token behind the items that are there. -/
def closed (closing : TokenKind) (xs : List α) : Production (List α) := do
  let _ ← Production.token closing
  pure xs

/-- The items behind those that are there, with the closing token. -/
def itemsBehind (closing : TokenKind) (item : Production α) (takes : Production.Takes 1 item)
    (xs : List α)
    : Production (List α) := do
  let items ←
    Production.repeated (Production.nextItem closing item)
      (Production.advances_nextItem closing takes)
  closed closing (xs ++ items)

/-- The items behind those that are there are the next one and those behind it. -/
theorem itemsBehind_step {takes : Production.Takes 1 item} (xs : List α) (cursor : Cursor)
    : itemsBehind closing item takes xs cursor
      = match Production.nextItem closing item cursor with
        | .error fault => .error fault
        | .ok (none, next) => closed closing xs next
        | .ok (some x, next) => itemsBehind closing item takes (xs ++ [x]) next := by
  simp only [itemsBehind, bind]
  rw [Production.repeated_eq]
  rcases Production.nextItem closing item cursor with fault | ⟨_ | x, next⟩
  · rfl
  · simp only [List.append_nil]
  · simp only
    rcases Production.repeated (Production.nextItem closing item) _ next with fault | ⟨items, last⟩
    · rfl
    · simp only [List.append_assoc, List.singleton_append]

theorem closed_of_ne (differs : cursor.kind ≠ closing) (xs : List α)
    : closed closing xs cursor = .error (.unexpected (.token closing) cursor.rest.head?) := by
  refine Production.bind_of_error ?_
  rw [Cursor.kind] at differs
  rw [Production.token, Production.satisfying]
  cases atCursor : cursor.rest with
  | nil => rfl
  | cons token rest =>
      rw [atCursor] at differs
      exact if_neg (by simpa using differs)

theorem nextItem_of_closing (closes : cursor.kind = closing)
    : Production.nextItem closing item cursor = .ok (none, cursor) :=
  Production.nextItem_none_iff.mpr ⟨closes, rfl⟩

theorem nextItem_of_ne (differs : cursor.kind ≠ closing)
    : Production.nextItem closing item cursor
      = (item >>= fun x => Production.itemEnd closing >>= fun _ => pure (some x)) cursor := by
  rw [Production.nextItem, Production.peekKind_bind, if_neg differs]

theorem itemStep_of_ne (differs : cursor.kind ≠ closing) (xs : List α)
    : itemStep closing item xs cursor
      = (item >>= fun x => Production.accept .comma >>= fun separated =>
          if separated then pure (.again (xs ++ [x])) else pure (.done (xs ++ [x]))) cursor := by
  rw [itemStep, Production.peekKind_bind, if_neg differs]

theorem exists_accept_eq_ok (kind : TokenKind) (cursor : Cursor)
    : ∃ accepted next, Production.accept kind cursor = .ok (accepted, next) := by
  obtain ⟨taken, next, read⟩ : ∃ taken next,
      Production.optional (fun _ token => token.kind = kind) cursor = .ok (taken, next) := by
    unfold Production.optional
    split
    · split <;> exact ⟨_, _, rfl⟩
    · exact ⟨_, _, rfl⟩
  exact ⟨taken.isSome, next, Production.bind_of_ok read⟩

theorem itemEnd_of_ok {accepted : Bool} {next : Cursor}
    (read : Production.accept .comma cursor = .ok (accepted, next))
    : Production.itemEnd closing cursor
      = if accepted = true ∨ next.kind = closing then .ok ((), next)
        else .error (.unexpected (.token closing) next.rest.head?) := by
  rw [Production.itemEnd, Production.bind_of_ok read]
  cases accepted with
  | true => simp [pure]
  | false =>
      simp only [Bool.false_eq_true, if_false, false_or, Production.peekKind_bind]
      split <;> rfl

/-- Items end at the closing token, or where no comma lets another one follow; then the closing
token has to be there.
-/
theorem itemsBehind_eq {takes : Production.Takes 1 item} (xs : List α)
    : itemsBehind closing item takes xs
      = itemStep closing item xs
        >>= Round.elim (itemsBehind closing item takes) (closed closing) := by
  funext cursor
  rw [itemsBehind_step]
  by_cases closes : cursor.kind = closing
  · have step : itemStep closing item xs cursor = .ok (.done xs, cursor) := by
      rw [itemStep, Production.peekKind_bind, if_pos closes]
      rfl
    rw [nextItem_of_closing closes, Production.bind_of_ok step, Round.elim]
  have next_eq : Production.nextItem closing item cursor = _ := nextItem_of_ne closes
  have step : itemStep closing item xs cursor = _ := itemStep_of_ne closes xs
  rcases read : item cursor with fault | ⟨x, middle⟩
  · rw [Production.bind_of_error read] at next_eq step
    rw [next_eq, Production.bind_of_error step]
  rw [Production.bind_of_ok read] at next_eq step
  obtain ⟨separated, next, accepted⟩ := exists_accept_eq_ok .comma middle
  rw [Production.bind_of_ok accepted] at step
  have ends : Production.itemEnd closing middle = _ := itemEnd_of_ok accepted
  cases separated with
  | true =>
      rw [if_pos (.inl rfl)] at ends
      rw [Production.bind_of_ok ends] at next_eq
      rw [next_eq, Production.bind_of_ok step]
      rfl
  | false =>
      rw [Production.bind_of_ok step, Round.elim]
      by_cases closes' : next.kind = closing
      · rw [if_pos (.inr closes')] at ends
        rw [Production.bind_of_ok ends] at next_eq
        rw [next_eq]
        exact (itemsBehind_step _ _).trans (by rw [nextItem_of_closing closes'])
      · rw [if_neg (by simp [closes'])] at ends
        rw [Production.bind_of_error ends] at next_eq
        rw [next_eq, closed_of_ne closes']

theorem length_lt_of_itemStep (takes : Production.Takes 1 item) {xs ys : List α} {next : Cursor}
    (read : itemStep closing item xs cursor = .ok (.again ys, next))
    : next.rest.length < cursor.rest.length := by
  by_cases closes : cursor.kind = closing
  · rw [itemStep, Production.peekKind_bind, if_pos closes] at read
    simp [Production.pure_eq_ok] at read
  rw [itemStep_of_ne closes] at read
  obtain ⟨x, middle, readItem, readBehind⟩ := Production.bind_eq_ok read
  obtain ⟨separated, behind, accepted, last⟩ := Production.bind_eq_ok readBehind
  have := takes _ _ _ readItem
  have := Production.takes_accept _ _ _ _ accepted
  cases separated with
  | true =>
      obtain ⟨-, rfl⟩ := Production.pure_eq_ok.mp last
      omega
  | false => simp [Production.pure_eq_ok] at last

protected theorem itemsUntil (notEnd : closing ≠ .endOfInput) (takes : Production.Takes 1 item)
    (h : Mirrors least walk item)
    : Mirrors least (Walk.itemsUntil closing walk) (Production.itemsUntil closing item takes) := by
  have rounds (xs : List α)
      : Mirrors least (Walk.itemRound closing walk xs) (itemStep closing item xs) :=
    .bind .peekKind fun _ => .ite (.pure _) (h.bind fun _ => (Mirrors.accept (by decide)).bind
      fun _ => .ite (.pure _) (.pure _))
  have follows (xs : List α)
      : Mirrors least (Walk.token closing >>= fun _ => pure xs) (closed closing xs) :=
    .bind (.token notEnd) fun _ => .pure xs
  exact iterate_bind (q := itemsBehind closing item takes) rounds (length_lt_of_itemStep takes)
    itemsBehind_eq follows []

end Items

-----------------------------------------------------------------------------------------
-- Names and values
-----------------------------------------------------------------------------------------

protected theorem nameSegment : Mirrors least Walk.nameSegment Production.nameSegment :=
  .bind (.accept (by decide)) fun _ => .ite (.bind (.word _) fun _ => .pure _) (.pure _)

protected theorem dottedName (expected : Expectation)
    : Mirrors least (Walk.dottedName expected) (Production.dottedName expected) :=
  .bind (.word _) fun _ => .bind (.collect _ .nameSegment) fun _ => .pure _

protected theorem nameWithArguments (expected : Expectation)
    : Mirrors least (Walk.nameWithArguments expected) (Production.nameWithArguments expected) :=
  .bind (.dottedName _) fun _ => .bind .peekKind fun _ =>
    .ite (.bind (.group (by decide)) fun _ => .pure _) (.pure _)

protected theorem listItem : Mirrors least Walk.listItem Production.listItem :=
  .bind .peekKind fun _ =>
    .ite (.bind (.token (by decide)) fun _ => .pure _)
      (.bind (.nameWithArguments _) fun _ => .pure _)

/-- A number that cannot be read is refused where it stands. -/
protected theorem number : Mirrors least Walk.number Production.number := by
  refine ⟨fun {input cursor} reaches => ?_, fun read => ?_⟩
  · have taken : Mirrors least (Walk.token .number) (Production.token .number) :=
      .token (by decide)
    have run := taken.runs reaches
    rcases read : Production.token .number cursor with fault | ⟨literal, next⟩ <;>
      rw [read] at run
    · rw [Walk.number, Walk.bind_of_error run, Production.number, Production.bind_of_error read]
      rfl
    · rw [Walk.number, Walk.bind_of_ok run, Production.number, Production.bind_of_ok read]
      have passes := (Production.token_eq_ok.mp read).2
      have isFound : input.found cursor = literal := by simp [Input.found, passes.rest]
      cases Binary64.readLongest? literal.text.toList with
      | some x => rfl
      | none =>
          have ordered := reaches.span_ordered
          rw [isFound] at ordered
          exact Walk.bind_of_ok (Walk.minus_run ordered _ _)
  · obtain ⟨literal, middle, readLiteral, readBehind⟩ := Production.bind_eq_ok read
    have passes := (Production.token_eq_ok.mp readLiteral).2
    cases readable : Binary64.readLongest? literal.text.toList with
    | some x =>
        rw [readable] at readBehind
        obtain ⟨-, rfl⟩ := Production.pure_eq_ok.mp readBehind
        exact ⟨_, passes⟩
    | none =>
        rw [readable] at readBehind
        cases readBehind

protected theorem value : Mirrors least Walk.value Production.value := by
  refine .bind .peekKind fun kind => ?_
  cases kind
  case string => exact .bind (.token (by decide)) fun _ => .pure _
  case number => exact .number
  case boolean => exact .bind (.token (by decide)) fun _ => .pure _
  case leftBracket =>
    exact .bind (.token (by decide)) fun _ =>
      .bind (.itemsUntil (by decide) _ .listItem) fun _ => .pure _
  all_goals exact .bind (.nameWithArguments _) fun _ => .pure _

-----------------------------------------------------------------------------------------
-- Arguments
-----------------------------------------------------------------------------------------

/-- The kind of the token behind one that is in front of the end. -/
theorem peekKindAhead_run {input : Input} {last token : Token} {rest : List Token}
    (reaches : input.Reaches least ⟨last, token :: rest⟩)
    : Walk.peekKindAhead 1 input.tokens (input.position ⟨last, token :: rest⟩)
      = .ok (Cursor.kind ⟨token, rest⟩, input.position ⟨last, token :: rest⟩) := by
  have ahead := congrArg (·[1]?) reaches.drop_position
  simp only [List.getElem?_drop] at ahead
  rw [Walk.peekKindAhead, ahead]
  cases rest with
  | nil => simp [Cursor.kind, input.isEnd]
  | cons colon rest => simp [Cursor.kind]

/-- Whether an argument has a name is seen two tokens ahead. -/
protected theorem argumentName : Mirrors least Walk.argumentName Production.argumentName := by
  refine ⟨fun {input cursor} reaches => ?_, fun {cursor next name} read => ?_⟩
  · rw [Walk.argumentName, Walk.bind_of_ok (peekKind_run reaches)]
    obtain ⟨last, _ | ⟨word, rest⟩⟩ := cursor
    · exact Walk.bind_of_ok rfl
    rw [Walk.bind_of_ok (peekKindAhead_run reaches)]
    have taken := advance_run reaches rfl
    have reaches' : input.Reaches least ⟨word, rest⟩ :=
      (reaches.passes (⟨rfl, rfl⟩ : Cursor.Passes _ [word] _)).mono (Nat.le_add_right _ _)
    obtain _ | ⟨colon, rest⟩ := rest
    · rw [if_neg (by simp [Cursor.kind])]
      rfl
    have words : (Cursor.kind ⟨last, word :: colon :: rest⟩).isWord = word.isWord := rfl
    have colons : Cursor.kind ⟨word, colon :: rest⟩ = colon.kind := rfl
    rw [words, colons]
    by_cases isNamed : word.isWord = true ∧ colon.kind = .colon
    · rw [if_pos isNamed, Walk.bind_of_ok taken, Walk.bind_of_ok (advance_run reaches' rfl)]
      simp only [Production.argumentName, isNamed, decide_true, Bool.and_self, if_true]
      rfl
    · have notNamed : ¬(word.isWord && decide (colon.kind = .colon)) = true := by
        simpa using isNamed
      rw [if_neg isNamed]
      simp only [Production.argumentName, if_neg notNamed]
      rfl
  · unfold Production.argumentName at read
    split at read
    next word colon rest atCursor =>
      split at read <;> obtain ⟨-, rfl⟩ := Prod.mk.inj (Except.ok.inj read)
      · exact ⟨[word, colon], atCursor, rfl⟩
      · exact ⟨[], .refl _⟩
    next =>
      obtain ⟨-, rfl⟩ := Prod.mk.inj (Except.ok.inj read)
      exact ⟨[], .refl _⟩

/-- An argument that starts at the byte range given. -/
def argumentFrom (start : Option Span) : Production Argument := do
  let name ← Production.argumentName
  let value ← Production.value
  let last ← Production.previous
  pure ⟨name.map Token.toIdent, value, (start.getD last.span).merge last.span⟩

theorem argument_eq (cursor : Cursor)
    : Production.argument cursor = argumentFrom (cursor.rest.head?.map Token.span) cursor :=
  rfl

theorem argumentFrom_mirrors (start : Span)
    : Mirrors least
        (Walk.argumentName >>= fun name => Walk.value >>= fun value => Walk.behind >>= fun last =>
          pure (⟨name.map Token.toIdent, value, start.merge last.span⟩ : Argument))
        (argumentFrom (some start)) :=
  .bind .argumentName fun _ => .bind_taking Production.takes_value .value fun _ =>
    .bind .behind fun _ => .pure _

/-- Without a token to begin with there is no argument, wherever it starts. -/
theorem argumentFrom_nil {last : Token} (start start' : Option Span)
    : argumentFrom start ⟨last, []⟩ = argumentFrom start' ⟨last, []⟩ := by
  have noName : Production.argumentName ⟨last, []⟩ = .ok (none, ⟨last, []⟩) := rfl
  rw [argumentFrom, Production.bind_of_ok noName, argumentFrom, Production.bind_of_ok noName]
  rcases read : Production.value ⟨last, []⟩ with fault | ⟨value, next⟩
  · rw [Production.bind_of_error read, Production.bind_of_error read]
  · have := Production.takes_value _ _ _ read
    simp at this

protected theorem argument : Mirrors least Walk.argument Production.argument := by
  refine ⟨fun {input cursor} reaches => ?_, fun {cursor next x} read => ?_⟩
  · rw [Walk.argument, Walk.bind_of_ok (peek_run reaches),
      (argumentFrom_mirrors (input.found cursor).span).runs reaches, argument_eq]
    obtain ⟨last, _ | ⟨token, rest⟩⟩ := cursor
    · rw [argumentFrom_nil]
    · rfl
  · obtain ⟨start, atStart⟩ : ∃ start, argumentFrom (some start) cursor = .ok (x, next) := by
      rw [argument_eq] at read
      obtain ⟨last, _ | ⟨token, rest⟩⟩ := cursor
      · exact ⟨Span.none, (argumentFrom_nil _ _).trans read⟩
      · exact ⟨token.span, read⟩
    exact (@argumentFrom_mirrors 0 start).moves atStart

protected theorem arguments : Mirrors least Walk.arguments Production.arguments :=
  .bind (.accept (by decide)) fun _ => .ite (.itemsUntil (by decide) _ .argument) (.pure _)

-----------------------------------------------------------------------------------------
-- Attributes
-----------------------------------------------------------------------------------------

protected theorem attributeBody : Mirrors least Walk.attributeBody Production.attributeBody :=
  .bind_taking (Production.takes_dottedName _) (.dottedName _) fun _ => .bind .arguments fun _ =>
    .bind .behind fun _ => .pure _

protected theorem nextAttribute : Mirrors least Walk.nextAttribute Production.nextAttribute :=
  .bind (.accept (by decide)) fun _ => .ite (.bind .attributeBody fun _ => .pure _) (.pure _)

protected theorem attributes : Mirrors least Walk.attributes Production.attributes :=
  .collect _ .nextAttribute

end SchemaDoc.Mirrors
