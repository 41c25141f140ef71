import SchemaDoc.Binary64.Reading
import SchemaDoc.Schema.Basic
import SchemaDoc.Schema.Production

/-! Reading attributes with their arguments from tokens, one production for each rule.
Lists hold names and texts only, and the arguments of a call are passed over.
-/

namespace SchemaDoc

/-- The name that a token spells, where it stands. -/
def Token.toIdent (token : Token) : Ident := ⟨token.text, token.span⟩

namespace Production

/-- The tokens of a group behind its opening token, up to the one that closes it. Groups of
the same kind nest, and nothing else matters inside.
-/
def skipGroup (opening closing : TokenKind) (depth : Nat)
    : List Token → Except Fault (Unit × Cursor)
  | [] => .error (.unexpected (.token closing) none)
  | token :: rest =>
      if token.kind = opening then skipGroup opening closing (depth + 1) rest
      else if token.kind = closing then
        match depth with
        | 0 => .ok ((), ⟨token, rest⟩)
        | depth + 1 => skipGroup opening closing depth rest
      else skipGroup opening closing depth rest

/-- Takes a whole group, whatever it holds. -/
def group (opening closing : TokenKind) : Production Unit := do
  let _ ← token opening
  fun cursor => skipGroup opening closing 0 cursor.rest

theorem skipGroup_length_lt (opening closing : TokenKind) {depth : Nat}
    {tokens : List Token} {result : Unit × Cursor}
    (h : skipGroup opening closing depth tokens = .ok result)
    : result.2.rest.length < tokens.length := by
  fun_induction skipGroup opening closing depth tokens <;> grind

theorem takes_group (opening closing : TokenKind) : Takes 1 (group opening closing) := by
  refine Takes.bind (n := 0) (takes_token opening) fun _ cursor x next h => ?_
  exact Nat.le_of_lt (skipGroup_length_lt _ _ h)

/-- The part of a name behind a dot, if there is a dot. -/
def nameSegment : Production (Option Token) := do
  if ← accept .dot then
    let segment ← word .nameAfterDot
    pure (some segment)
  else pure none

theorem advances_nameSegment : Advances nameSegment :=
  (takes_accept _).bind_advances fun _ =>
    .ite ((takes_word _).bind fun _ => takes_pure _).advances advances_none

theorem takes_nameSegment : Takes 0 nameSegment :=
  (takes_accept _).bind fun _ =>
    .ite (((takes_word _).bind fun _ => takes_pure _).mono (Nat.zero_le _)) (takes_pure _)

/-- Adds a part behind a dot to a name. -/
def extendName (name : Ident) (segment : Token) : Ident :=
  ⟨name.name ++ "." ++ segment.text, name.span.merge segment.span⟩

/-- A name of one or more parts. -/
def dottedName (expected : Expectation) : Production Ident := do
  let first ← word expected
  let segments ← repeated nameSegment advances_nameSegment
  pure (segments.foldl extendName first.toIdent)

theorem takes_dottedName (expected : Expectation) : Takes 1 (dottedName expected) :=
  (takes_word _).bind fun _ =>
    (takes_repeated _ takes_nameSegment).bind fun _ => takes_pure _

/-- A name whose arguments, if it has any, are passed over; says whether it had some. -/
def nameWithArguments (expected : Expectation) : Production (String × Bool) := do
  let name ← dottedName expected
  let kind ← peekKind
  if kind = .leftParen then
    group .leftParen .rightParen
    pure (name.name, true)
  else pure (name.name, false)

theorem takes_nameWithArguments (expected : Expectation)
    : Takes 1 (nameWithArguments expected) :=
  (takes_dottedName _).bind fun _ => takes_peekKind.bind fun _ =>
    .ite (((takes_group _ _).bind fun _ => takes_pure _).mono (Nat.zero_le _)) (takes_pure _)

/-- What follows an item: a comma, or the closing token, which stays there. -/
def itemEnd (closing : TokenKind) : Production Unit := do
  if ← accept .comma then pure ()
  else
    let kind ← peekKind
    if kind = closing then pure () else refuse (.token closing)

theorem takes_itemEnd (closing : TokenKind) : Takes 0 (itemEnd closing) :=
  (takes_accept _).bind fun _ =>
    .ite (takes_pure _) (takes_peekKind.bind fun _ => .ite (takes_pure _) (takes_refuse _ _))

/-- The next item of those that stand before a closing token, if it is not reached. -/
def nextItem {α : Type} (closing : TokenKind) (item : Production α)
    : Production (Option α) := do
  let kind ← peekKind
  if kind = closing then pure none
  else
    let x ← item
    itemEnd closing
    pure (some x)

theorem advances_nextItem {α : Type} (closing : TokenKind) {item : Production α}
    (h : Takes 1 item)
    : Advances (nextItem closing item) :=
  takes_peekKind.bind_advances fun _ =>
    .ite advances_none
      (h.bind fun _ => (takes_itemEnd _).bind fun _ => takes_pure _).advances

theorem takes_nextItem {α : Type} (closing : TokenKind) {item : Production α}
    (h : Takes 1 item)
    : Takes 0 (nextItem closing item) :=
  takes_peekKind.bind fun _ =>
    .ite (takes_pure _)
      ((h.bind fun _ => (takes_itemEnd _).bind fun _ => takes_pure _).mono (Nat.zero_le _))

/-- Items up to and with a closing token. They are separated by commas, and a comma may follow
the last one.
-/
def itemsUntil {α : Type} (closing : TokenKind) (item : Production α) (h : Takes 1 item)
    : Production (List α) := do
  let items ← repeated (nextItem closing item) (advances_nextItem closing h)
  let _ ← token closing
  pure items

theorem takes_itemsUntil {α : Type} (closing : TokenKind) {item : Production α}
    (h : Takes 1 item)
    : Takes 1 (itemsUntil closing item h) :=
  (takes_repeated _ (takes_nextItem closing h)).bind fun _ =>
    (takes_token _).bind fun _ => takes_pure _

/-- An item of a list: a text or a name, of which any arguments are passed over. -/
def listItem : Production String := do
  let kind ← peekKind
  if kind = .string then
    let text ← token .string
    pure text.text
  else
    let name ← nameWithArguments .listItem
    pure name.1

theorem takes_listItem : Takes 1 listItem :=
  takes_peekKind.bind fun _ =>
    .ite ((takes_token _).bind fun _ => takes_pure _)
      ((takes_nameWithArguments _).bind fun _ => takes_pure _)

/-- A number; of its text the longest start that can be read counts. -/
def number : Production Value := do
  let literal ← token .number
  match Binary64.readLongest? literal.text.toList with
  | some x => pure (.number x)
  | none => fun _ => .error (.unreadableNumber literal)

theorem takes_number : Takes 1 number := by
  refine Takes.bind (n := 0) (takes_token .number) fun literal => ?_
  split
  · exact takes_pure _
  · intro cursor x next h
    simp at h

/-- The value of an argument. -/
def value : Production Value := do
  match ← peekKind with
  | .string =>
      let text ← token .string
      pure (.string text.text)
  | .number => number
  | .boolean =>
      let literal ← token .boolean
      pure (.boolean (literal.text.map Char.toLower == "true"))
  | .leftBracket =>
      let _ ← token .leftBracket
      let items ← itemsUntil .rightBracket listItem takes_listItem
      pure (.list items)
  | _ =>
      let name ← nameWithArguments .attributeValue
      pure (if name.2 then .call name.1 else .name name.1)

theorem takes_value : Takes 1 value := by
  refine Takes.bind (n := 1) takes_peekKind fun kind => ?_
  split
  · exact (takes_token _).bind fun _ => takes_pure _
  · exact takes_number
  · exact (takes_token _).bind fun _ => takes_pure _
  · exact ((takes_token _).bind fun _ =>
      (takes_itemsUntil _ _).bind fun _ => takes_pure _).mono (by omega)
  · exact (takes_nameWithArguments _).bind fun _ => takes_pure _

/-- The name of an argument that is a word with a colon behind it; both are taken. -/
def argumentName : Production (Option Token) := fun cursor =>
  match cursor.rest with
  | name :: colon :: rest =>
      if name.isWord && colon.kind = .colon then .ok (some name, ⟨colon, rest⟩)
      else .ok (none, cursor)
  | _ => .ok (none, cursor)

theorem takes_argumentName : Takes 0 argumentName := by
  intro cursor x next h
  unfold argumentName at h
  split at h
  next name colon rest hr =>
    split at h
    · simp only [Except.ok.injEq, Prod.mk.injEq] at h
      simp only [hr, ← h.2, List.length_cons]
      omega
    · simp only [Except.ok.injEq, Prod.mk.injEq] at h
      simp [h.2]
  next =>
    simp only [Except.ok.injEq, Prod.mk.injEq] at h
    simp [h.2]

/-- The byte range of the token at the cursor, which stays there. -/
def peekSpan : Production (Option Span) := fun cursor =>
  .ok (cursor.rest.head?.map Token.span, cursor)

theorem takes_peekSpan : Takes 0 peekSpan := by
  intro cursor x next h
  simp only [peekSpan, Except.ok.injEq, Prod.mk.injEq] at h
  simp [h.2]

/-- An argument: a value, perhaps with a name. -/
def argument : Production Argument := do
  let start ← peekSpan
  let name ← argumentName
  let value ← value
  let last ← previous
  let span := (start.getD last.span).merge last.span
  pure ⟨name.map Token.toIdent, value, span⟩

theorem takes_argument : Takes 1 argument :=
  takes_peekSpan.bind fun _ => takes_argumentName.bind fun _ => takes_value.bind fun _ =>
    takes_previous.bind fun _ => takes_pure _

/-- The arguments of an attribute, which has none unless a parenthesis follows its name. -/
def arguments : Production (List Argument) := do
  if ← accept .leftParen then itemsUntil .rightParen argument takes_argument
  else pure []

theorem takes_arguments : Takes 0 arguments :=
  (takes_accept _).bind fun _ =>
    .ite ((takes_itemsUntil _ _).mono (Nat.zero_le _)) (takes_pure _)

/-- An attribute behind its sign. -/
def attributeBody : Production Attribute := do
  let name ← dottedName .attributeName
  let arguments ← arguments
  let last ← previous
  pure ⟨name, arguments, name.span.merge last.span⟩

theorem takes_attributeBody : Takes 1 attributeBody :=
  (takes_dottedName _).bind fun _ => takes_arguments.bind fun _ =>
    takes_previous.bind fun _ => takes_pure _

/-- An attribute with its sign, if the sign is there. -/
def nextAttribute : Production (Option Attribute) := do
  if ← accept .atSign then
    let read ← attributeBody
    pure (some read)
  else pure none

theorem advances_nextAttribute : Advances nextAttribute :=
  (takes_accept _).bind_advances fun _ =>
    .ite (takes_attributeBody.bind fun _ => takes_pure _).advances advances_none

theorem takes_nextAttribute : Takes 0 nextAttribute :=
  (takes_accept _).bind fun _ =>
    .ite ((takes_attributeBody.bind fun _ => takes_pure _).mono (Nat.zero_le _)) (takes_pure _)

/-- The attributes of a field or an enum value. -/
def attributes : Production (List Attribute) := repeated nextAttribute advances_nextAttribute

theorem takes_attributes : Takes 0 attributes := takes_repeated _ takes_nextAttribute

end Production

end SchemaDoc
