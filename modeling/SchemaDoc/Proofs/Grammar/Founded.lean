import SchemaDoc.Proofs.Grammar.Cursor

/-! What faults are founded on.
A number is refused for one reason only, that no beginning of its text can be read; every other
fault says what was expected. Each combinator hands on the faults of its parts.
-/

namespace SchemaDoc

/-- A number that is at fault is a number that cannot be read. -/
def Fault.IsFounded : Fault → Prop
  | .unexpected _ _ => True
  | .unreadableNumber token =>
      token.kind = .number ∧ Binary64.readLongest? token.text.toList = none

namespace Production

variable {α β : Type} {p q : Production α}

/-- A production whose faults are founded. -/
def Founded (p : Production α) : Prop :=
  ∀ ⦃cursor fault⦄, p cursor = .error fault → fault.IsFounded

-----------------------------------------------------------------------------------------
-- Combinators
-----------------------------------------------------------------------------------------

theorem founded_of_ok (reads : ∀ cursor, ∃ result, p cursor = .ok result) : Founded p := by
  intro cursor fault failed
  obtain ⟨result, read⟩ := reads cursor
  exact absurd (read.symm.trans failed) (by simp)

theorem founded_pure (x : α) : Founded (pure x : Production α) :=
  founded_of_ok fun _ => ⟨_, rfl⟩

theorem Founded.bind (first : Founded p) {f : α → Production β} (next : ∀ x, Founded (f x))
    : Founded (p >>= f) := by
  intro cursor fault failed
  simp only [Bind.bind] at failed
  split at failed
  next x middle _ => exact next x failed
  next fault' failedFirst =>
    obtain rfl := Except.error.inj failed
    exact first failedFirst

theorem Founded.ite {condition : Prop} [Decidable condition] (holds : Founded p)
    (fails : Founded q)
    : Founded (if condition then p else q) := by
  split <;> assumption

theorem founded_refuse (expected : Expectation) : Founded (refuse expected : Production α) := by
  intro cursor fault failed
  obtain rfl := Except.error.inj failed
  trivial

theorem founded_peekKind : Founded peekKind :=
  founded_of_ok fun _ => ⟨_, rfl⟩

theorem founded_previous : Founded previous :=
  founded_of_ok fun _ => ⟨_, rfl⟩

theorem founded_peekSpan : Founded peekSpan :=
  founded_of_ok fun _ => ⟨_, rfl⟩

theorem founded_satisfying (condition : Token → Bool) (expected : Expectation)
    : Founded (satisfying condition expected) := by
  intro cursor fault failed
  unfold satisfying at failed
  split at failed
  next =>
    split at failed
    next => simp at failed
    next =>
      obtain rfl := Except.error.inj failed
      trivial
  next =>
    obtain rfl := Except.error.inj failed
    trivial

theorem founded_token (kind : TokenKind) : Founded (token kind) := founded_satisfying _ _

theorem founded_word (expected : Expectation) : Founded (word expected) := founded_satisfying _ _

theorem founded_optional (condition : Token → Token → Bool) : Founded (optional condition) := by
  intro cursor fault failed
  unfold optional at failed
  split at failed
  · split at failed <;> simp at failed
  · simp at failed

theorem founded_accept (kind : TokenKind) : Founded (accept kind) :=
  (founded_optional _).bind fun _ => founded_pure _

theorem founded_leadingComments : Founded leadingComments :=
  founded_of_ok fun _ => ⟨_, rfl⟩

theorem founded_trailingComment : Founded trailingComment := founded_optional _

/-- A loop fails where one of its steps does. -/
theorem Founded.repeated {p : Production (Option α)} (step : Founded p) (advances : Advances p)
    : Founded (repeated p advances) := by
  intro cursor fault failed
  fun_induction Production.repeated p advances cursor with
  | case1 cursor fault' failedStep =>
      obtain rfl := Except.error.inj failed
      exact step failedStep
  | case2 => simp at failed
  | case3 cursor x next _ fault' failedRest ih =>
      obtain rfl := Except.error.inj failed
      exact ih failedRest
  | case4 => simp at failed

theorem founded_group (opening closing : TokenKind) : Founded (group opening closing) := by
  refine (founded_token opening).bind fun _ cursor fault failed => ?_
  generalize 0 = depth, cursor.rest = tokens at failed
  fun_induction skipGroup opening closing depth tokens with
  | case1 =>
      obtain rfl := Except.error.inj failed
      trivial
  | case2 _ _ _ _ ih => exact ih failed
  | case3 => simp at failed
  | case4 _ _ _ _ _ ih => exact ih failed
  | case5 _ _ _ _ _ ih => exact ih failed

-----------------------------------------------------------------------------------------
-- Attributes
-----------------------------------------------------------------------------------------

theorem founded_dottedName (expected : Expectation) : Founded (dottedName expected) := by
  have segment : Founded nameSegment :=
    (founded_accept _).bind fun _ =>
      .ite ((founded_word _).bind fun _ => founded_pure _) (founded_pure _)
  exact (founded_word _).bind fun _ => (segment.repeated _).bind fun _ => founded_pure _

theorem founded_nameWithArguments (expected : Expectation)
    : Founded (nameWithArguments expected) :=
  (founded_dottedName _).bind fun _ => founded_peekKind.bind fun _ =>
    .ite ((founded_group _ _).bind fun _ => founded_pure _) (founded_pure _)

theorem founded_itemsUntil (closing : TokenKind) {item : Production α} (founded : Founded item)
    (takes : Takes 1 item)
    : Founded (itemsUntil closing item takes) := by
  have itemEnds : Founded (itemEnd closing) :=
    (founded_accept _).bind fun _ =>
      .ite (founded_pure _) (founded_peekKind.bind fun _ =>
        .ite (founded_pure _) (founded_refuse _))
  have next : Founded (nextItem closing item) :=
    founded_peekKind.bind fun _ =>
      .ite (founded_pure _) (founded.bind fun _ => itemEnds.bind fun _ => founded_pure _)
  exact (next.repeated _).bind fun _ => (founded_token _).bind fun _ => founded_pure _

theorem founded_listItem : Founded listItem :=
  founded_peekKind.bind fun _ =>
    .ite ((founded_token _).bind fun _ => founded_pure _)
      ((founded_nameWithArguments _).bind fun _ => founded_pure _)

/-- The one place where a number is refused. -/
theorem founded_number : Founded number := by
  intro cursor fault failed
  cases taken : token .number cursor with
  | error fault' =>
      simp only [number, Bind.bind, taken] at failed
      obtain rfl := Except.error.inj failed
      exact founded_token _ taken
  | ok read =>
      obtain ⟨literal, next⟩ := read
      simp only [number, Bind.bind, taken] at failed
      cases found : Binary64.readLongest? literal.text.toList with
      | some x => simp [found, pure] at failed
      | none =>
          simp only [found, Except.error.injEq] at failed
          exact failed ▸ ⟨(token_eq_ok.mp taken).1, found⟩

theorem founded_value : Founded value := by
  refine founded_peekKind.bind fun kind => ?_
  split
  · exact (founded_token _).bind fun _ => founded_pure _
  · exact founded_number
  · exact (founded_token _).bind fun _ => founded_pure _
  · exact (founded_token _).bind fun _ =>
      (founded_itemsUntil _ founded_listItem _).bind fun _ => founded_pure _
  · exact (founded_nameWithArguments _).bind fun _ => founded_pure _

theorem founded_argumentName : Founded argumentName := by
  intro cursor fault failed
  unfold argumentName at failed
  split at failed
  · split at failed <;> simp at failed
  · simp at failed

theorem founded_argument : Founded argument :=
  founded_peekSpan.bind fun _ => founded_argumentName.bind fun _ => founded_value.bind fun _ =>
    founded_previous.bind fun _ => founded_pure _

theorem founded_attributeBody : Founded attributeBody := by
  have listed : Founded arguments :=
    (founded_accept _).bind fun _ => .ite (founded_itemsUntil _ founded_argument _) (founded_pure _)
  exact (founded_dottedName _).bind fun _ => listed.bind fun _ =>
    founded_previous.bind fun _ => founded_pure _

theorem founded_attributes : Founded attributes := by
  have next : Founded nextAttribute :=
    (founded_accept _).bind fun _ =>
      .ite (founded_attributeBody.bind fun _ => founded_pure _) (founded_pure _)
  exact next.repeated _

-----------------------------------------------------------------------------------------
-- Declarations
-----------------------------------------------------------------------------------------

theorem founded_field (documentation : Option Documentation) : Founded (field documentation) := by
  have type : Founded fieldType :=
    (founded_word _).bind fun _ => founded_peekKind.bind fun _ =>
      .ite
        ((founded_token _).bind fun _ => (founded_token _).bind fun _ =>
          (founded_token _).bind fun _ => founded_pure _)
        (founded_pure _)
  have mark : Founded listMark :=
    (founded_accept _).bind fun _ =>
      .ite ((founded_token _).bind fun _ => founded_pure _) (founded_pure _)
  exact (founded_word _).bind fun _ => type.bind fun _ => mark.bind fun _ =>
    (founded_accept _).bind fun _ => founded_attributes.bind fun _ =>
    founded_previous.bind fun _ => founded_trailingComment.bind fun _ => founded_pure _

theorem founded_enumValue (documentation : Option Documentation)
    : Founded (enumValue documentation) :=
  (founded_word _).bind fun _ => founded_attributes.bind fun _ =>
    founded_trailingComment.bind fun _ => founded_pure _

theorem founded_block (keyword : TokenKind) (named expected : Expectation)
    {member : Option Documentation → Production α}
    (founded : ∀ documentation, Founded (member documentation))
    (takes : ∀ documentation, Takes 1 (member documentation))
    : Founded (block keyword named expected member takes) := by
  have next : Founded (nextEntry expected member) :=
    founded_leadingComments.bind fun _ => founded_peekKind.bind fun _ =>
      .ite (founded_pure _)
        (.ite
          ((founded_token _).bind fun _ => founded_attributeBody.bind fun _ =>
            founded_trailingComment.bind fun _ => founded_pure _)
          (.ite ((founded _).bind fun _ => founded_pure _) (founded_refuse _)))
  exact (founded_token _).bind fun _ => (founded_word _).bind fun _ =>
    (founded_token _).bind fun _ => founded_trailingComment.bind fun _ =>
    (next.repeated _).bind fun _ => (founded_token _).bind fun _ => founded_pure _

theorem founded_ignoredBlock (keyword : TokenKind) : Founded (ignoredBlock keyword) :=
  (founded_token _).bind fun _ => (founded_word _).bind fun _ => founded_group _ _

theorem founded_nextDeclaration : Founded nextDeclaration := by
  have aModel (documentation : Option Documentation) : Founded (model documentation) :=
    (founded_block _ _ _ founded_field _).bind fun _ => founded_pure _
  have anEnum (documentation : Option Documentation) : Founded (enum documentation) :=
    (founded_block _ _ _ founded_enumValue _).bind fun _ => founded_pure _
  refine founded_leadingComments.bind fun _ => founded_peekKind.bind fun kind => ?_
  split
  · exact founded_pure _
  · exact (aModel _).bind fun _ => founded_pure _
  · exact (anEnum _).bind fun _ => founded_pure _
  · exact (founded_ignoredBlock _).bind fun _ => founded_pure _
  · exact (founded_ignoredBlock _).bind fun _ => founded_pure _
  · exact founded_refuse _

/-- Every fault of a schema is founded. -/
theorem founded_declarations : Founded declarations := founded_nextDeclaration.repeated _

end Production

end SchemaDoc
