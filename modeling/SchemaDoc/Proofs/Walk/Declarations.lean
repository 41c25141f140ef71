import SchemaDoc.Proofs.Walk.Attributes

/-! Declarations are read by position as they are read off a token list.
A comment belongs to what is in front of it if both are on one line, so the token in front is looked
up, and there always is one.
-/

namespace SchemaDoc.Mirrors

variable {α : Type} {least : Nat}

-----------------------------------------------------------------------------------------
-- Comments
-----------------------------------------------------------------------------------------

/-- A comment at the cursor, if there is one. -/
def nextComment : Production (Option Token) :=
  Production.optional fun _ token => token.kind = .docComment

theorem advances_nextComment : Production.Advances nextComment := by
  intro cursor token next read
  have passes := (Production.optional_eq_ok.mp read).2
  rw [passes.rest]
  exact Nat.lt_succ_self _

theorem nextComment_mirrors : Mirrors least Walk.nextComment nextComment := by
  refine ⟨fun {input cursor} reaches => ?_, optional_moves⟩
  rw [Walk.nextComment, Walk.bind_of_ok (peekKind_run reaches), nextComment, Production.optional]
  obtain ⟨last, _ | ⟨token, rest⟩⟩ := cursor
  · rfl
  have kind : Cursor.kind ⟨last, token :: rest⟩ = token.kind := rfl
  rw [kind]
  by_cases isComment : token.kind = .docComment
  · rw [if_pos isComment, Walk.bind_of_ok (advance_run reaches rfl)]
    simp only [isComment, decide_true, if_true]
    rfl
  · rw [if_neg isComment]
    simp only [isComment, decide_false, Bool.false_eq_true, if_false]
    rfl

/-- Taking the tokens that meet a condition is a loop, by induction on the tokens ahead. -/
theorem leadingComments_eq
    : Production.leadingComments = Production.repeated nextComment advances_nextComment := by
  funext cursor
  obtain ⟨last, rest⟩ := cursor
  induction rest generalizing last with
  | nil =>
      rw [Production.repeated_eq]
      rfl
  | cons token rest ih =>
      rw [Production.repeated_eq]
      by_cases isComment : token.kind = .docComment
      · have read : nextComment ⟨last, token :: rest⟩ = .ok (some token, ⟨token, rest⟩) := by
          simp [nextComment, Production.optional, isComment]
        simp [read, ← ih, Production.leadingComments, Production.takeWhile, isComment,
          List.getLast?_cons]
      · have read : nextComment ⟨last, token :: rest⟩ = .ok (none, ⟨last, token :: rest⟩) := by
          simp [nextComment, Production.optional, isComment]
        simp [read, Production.leadingComments, Production.takeWhile, isComment]

protected theorem leadingComments
    : Mirrors least Walk.leadingComments Production.leadingComments := by
  rw [leadingComments_eq]
  exact .collect _ nextComment_mirrors

/-- Behind a token, the comment on its line is taken. -/
protected theorem trailingComment
    : Mirrors (least + 1) Walk.trailingComment Production.trailingComment := by
  refine ⟨fun {input cursor} reaches => ?_, optional_moves⟩
  have behind := (@Mirrors.behind least).runs reaches
  rw [Walk.trailingComment, Walk.bind_of_ok behind, Walk.bind_of_ok (peek_run reaches),
    Production.trailingComment, Production.optional]
  obtain ⟨last, _ | ⟨token, rest⟩⟩ := cursor
  · have isEnd : (input.found ⟨last, []⟩).kind = .endOfInput := input.isEnd
    rw [if_neg (by simp [isEnd])]
    rfl
  have isFound : input.found ⟨last, token :: rest⟩ = token := rfl
  rw [isFound]
  by_cases attaches : token.kind = .docComment ∧ token.line = last.line
  · rw [if_pos attaches, Walk.bind_of_ok (advance_run reaches rfl)]
    simp only [attaches, decide_true, Bool.and_self, if_true]
    rfl
  · have notAttached
        : ¬(decide (token.kind = .docComment) && decide (token.line = last.line)) = true := by
      simpa using attaches
    rw [if_neg attaches]
    simp only [if_neg notAttached]
    rfl

-----------------------------------------------------------------------------------------
-- Fields and values
-----------------------------------------------------------------------------------------

protected theorem fieldType : Mirrors least Walk.fieldType Production.fieldType :=
  .bind (.word _) fun _ => .bind .peekKind fun _ =>
    .ite
      (.bind (.token (by decide)) fun _ => .bind (.token (by decide)) fun _ =>
        .bind (.token (by decide)) fun _ => .pure _)
      (.pure _)

protected theorem listMark : Mirrors least Walk.listMark Production.listMark :=
  .bind (.accept (by decide)) fun _ =>
    .ite (.bind (.token (by decide)) fun _ => .pure _) (.pure _)

protected theorem field (documentation : Option Documentation)
    : Mirrors least (Walk.field documentation) (Production.field documentation) :=
  .bind_taking (Production.takes_word _) (.word _) fun _ => .bind .fieldType fun _ =>
    .bind .listMark fun _ => .bind (.accept (by decide)) fun _ => .bind .attributes fun _ =>
    .bind .behind fun _ => .bind .trailingComment fun _ => .pure _

protected theorem enumValue (documentation : Option Documentation)
    : Mirrors least (Walk.enumValue documentation) (Production.enumValue documentation) :=
  .bind_taking (Production.takes_word _) (.word _) fun _ => .bind .attributes fun _ =>
    .bind .trailingComment fun _ => .pure _

-----------------------------------------------------------------------------------------
-- Blocks
-----------------------------------------------------------------------------------------

protected theorem nextEntry (expected : Expectation) {walk : Option Documentation → Walk α}
    {member : Option Documentation → Production α}
    (h : ∀ documentation, Mirrors least (walk documentation) (member documentation))
    : Mirrors least (Walk.nextEntry expected walk) (Production.nextEntry expected member) :=
  .bind .leadingComments fun _ => .bind .peekKind fun _ =>
    .ite (.pure _)
      (.ite
        (.bind_taking (Production.takes_token _) (.token (by decide)) fun _ =>
          .bind .attributeBody fun _ => .bind .trailingComment fun _ => .pure _)
        (.ite (.bind (h _) fun _ => .pure _) (.refuse _)))

protected theorem block {keyword : TokenKind} (notEnd : keyword ≠ .endOfInput)
    (named expected : Expectation) {walk : Option Documentation → Walk α}
    {member : Option Documentation → Production α}
    (takes : ∀ documentation, Production.Takes 1 (member documentation))
    (h : ∀ {least} documentation, Mirrors least (walk documentation) (member documentation))
    : Mirrors least (Walk.block keyword named expected walk)
        (Production.block keyword named expected member takes) :=
  .bind_taking (Production.takes_token _) (.token notEnd) fun _ => .bind (.word _) fun _ =>
    .bind (.token (by decide)) fun _ => .bind .trailingComment fun _ =>
    .bind (.collect _ (.nextEntry _ h)) fun _ => .bind (.token (by decide)) fun _ => .pure _

protected theorem model (documentation : Option Documentation)
    : Mirrors least (Walk.model documentation) (Production.model documentation) :=
  .bind (.block (by decide) _ _ _ .field) fun _ => .pure _

protected theorem enum (documentation : Option Documentation)
    : Mirrors least (Walk.enum documentation) (Production.enum documentation) :=
  .bind (.block (by decide) _ _ _ .enumValue) fun _ => .pure _

protected theorem ignoredBlock {keyword : TokenKind} (notEnd : keyword ≠ .endOfInput)
    : Mirrors least (Walk.ignoredBlock keyword) (Production.ignoredBlock keyword) :=
  .bind (.token notEnd) fun _ => .bind (.word _) fun _ => .group (by decide)

-----------------------------------------------------------------------------------------
-- Declarations
-----------------------------------------------------------------------------------------

protected theorem nextDeclaration
    : Mirrors least Walk.nextDeclaration Production.nextDeclaration := by
  refine .bind .leadingComments fun _ => .bind .peekKind fun kind => ?_
  cases kind
  case endOfInput => exact .pure _
  case model => exact .bind (.model _) fun _ => .pure _
  case enum => exact .bind (.enum _) fun _ => .pure _
  case datasource => exact .bind (.ignoredBlock (by decide)) fun _ => .pure _
  case generator => exact .bind (.ignoredBlock (by decide)) fun _ => .pure _
  all_goals exact .refuse _

protected theorem schema
    : Mirrors least Walk.schema
        (Production.declarations >>= fun declarations => pure (.ofDeclarations declarations)) :=
  .bind (.collect _ .nextDeclaration) fun _ => .pure _

end SchemaDoc.Mirrors
