import SchemaDoc.Proofs.Grammar.Decided

/-! Names, values and attributes are decided at every cursor, and can be continued from wherever
a fault stops them. One production looks two tokens ahead: the name of an argument. A value
behind it always takes the first of the two, so the second is no farther than a run may look.
-/

namespace SchemaDoc

namespace Production

open Grammar

-----------------------------------------------------------------------------------------
-- Names
-----------------------------------------------------------------------------------------

/-- Any word is a name. -/
theorem begins_name : Begins Name [] :=
  ⟨[.unplaced .identifier], _, by decide, .word rfl⟩

/-- The parts of a name behind its first ones are decided: behind a dot stands any word. -/
theorem decided_nameSegments {done : List Token} {name : Ident} (isName : Name done name)
    (cursor : Cursor)
    : Decided (repeated nameSegment advances_nameSegment)
        (fun front => Begins Name (done ++ front)) cursor := by
  refine .repeated _ (fun done _ => ∃ name, Name done name) ?_ ?_ ⟨name, isName⟩
  · intro done cursor isName
    obtain ⟨name, isName⟩ := isName
    refine .accept_bind (by decide) (fun {dot _} isDot _ => ?_) fun _ => .pure _
    refine .word_bind ?_ fun _ _ => .pure _
    exact ⟨[.unplaced .identifier], _, by decide,
      by simpa only [List.append_assoc, List.singleton_append] using .dotted isName isDot rfl⟩
  · intro done cursor tokens segment next isName read passes
    obtain ⟨name, isName⟩ := isName
    obtain ⟨tokens', passes', isDot, isWord⟩ := segment_of_nameSegment read
    obtain rfl := passes.tokens_unique passes'
    exact ⟨_, isName.dotted isDot isWord⟩

theorem decided_dottedName (expected : Expectation) (cursor : Cursor)
    : Decided (dottedName expected) (Begins Name) cursor := by
  refine .word_bind begins_name fun {found middle} isWord _ => ?_
  exact (decided_nameSegments (.word isWord) middle).bind fun _ _ => .pure _

theorem decided_nameWithArguments (expected : Expectation) (cursor : Cursor)
    : Decided (nameWithArguments expected) (Begins Reference) cursor := by
  have named := (decided_dottedName expected cursor).embed [] fun isName =>
    .of_part (Reference.name isName)
  refine named.sound_bind (sound_dottedName expected) fun {tokens name middle} isName _ => ?_
  refine .peekKind_bind (.ite (fun _ => ?_) fun _ => .pure _)
  have grouped := (decided_group (by decide) (by decide) (by decide) middle).embed tokens
    fun isGroup => .of_part (Reference.call isName isGroup)
  exact grouped.bind fun _ _ => .pure _

-----------------------------------------------------------------------------------------
-- Values
-----------------------------------------------------------------------------------------

theorem decided_listItem (cursor : Cursor)
    : Decided listItem (Begins Item) cursor := by
  refine .peekKind_bind (.ite (fun _ => ?_) fun _ => ?_)
  · exact .token_bind ⟨[.unplaced .string], _, by decide, .string rfl⟩ fun _ _ => .pure _
  · have named := (decided_nameWithArguments .listItem cursor).embed [] fun isReference =>
      .of_part (Item.reference isReference)
    exact named.bind fun _ _ => .pure _

/-- Any text is a value. -/
theorem begins_value : Begins Grammar.Value [] :=
  ⟨[.unplaced .string], _, by decide, .string rfl⟩

/-- A number that cannot be read is at fault itself, although it has been taken. -/
theorem decided_number (cursor : Cursor)
    : Decided number (Begins Grammar.Value) cursor := by
  by_cases unreadable : ∃ literal ∈ cursor.rest.head?,
      literal.kind = .number ∧ Binary64.readLongest? literal.text.toList = none
  · obtain ⟨literal, isNext, isNumber, fails⟩ := unreadable
    have atFault : (Fault.unreadableNumber literal).token? = cursor.rest.head? := isNext.symm
    refine .fails [] rfl atFault begins_value fun rest sameHead => ?_
    obtain ⟨behind, rfl⟩ := List.head?_eq_some_iff.mp (sameHead.trans isNext)
    have taken : token .number ⟨cursor.previous, literal :: behind⟩
        = .ok (literal, ⟨literal, behind⟩) :=
      token_eq_ok.mpr ⟨isNumber, ⟨rfl, rfl⟩⟩
    simp only [List.nil_append, number, Bind.bind, taken, fails]
  · refine .token_bind begins_value fun {literal middle} isNumber passed => ?_
    split
    next => exact .pure _
    next fails => exact absurd ⟨literal, by simp [passed.rest], isNumber, fails⟩ unreadable

theorem decided_value (cursor : Cursor)
    : Decided value (Begins Grammar.Value) cursor := by
  refine .peekKind_bind ?_
  split
  next => exact .token_bind begins_value fun _ _ => .pure _
  next => exact decided_number cursor
  next => exact .token_bind begins_value fun _ _ => .pure _
  next =>
    refine .token_bind begins_value fun {first middle} opens _ => ?_
    have enclosed := decided_itemsUntil (show TokenKind.rightBracket ≠ .comma by decide)
      (by decide) takes_listItem sound_listItem decided_listItem middle
    have listed := enclosed.embed [first] fun enclosed => by
      obtain ⟨items, last, rfl, separated, closes⟩ := enclosed
      exact .of_part (Grammar.Value.list opens separated closes)
    exact listed.bind fun _ _ => .pure _
  next =>
    have named := (decided_nameWithArguments .attributeValue cursor).embed []
      fun {_ reference} isReference => by
        obtain ⟨text, called⟩ := reference
        cases called with
        | false => exact .of_part (Grammar.Value.name isReference)
        | true => exact .of_part (Grammar.Value.call isReference)
    exact named.bind fun _ _ => .pure _

-----------------------------------------------------------------------------------------
-- Arguments
-----------------------------------------------------------------------------------------

/-- That an argument has no name is known from two tokens. -/
theorem argumentName_congr {last : Token} {front back rest : List Token}
    (unnamed : argumentName ⟨last, front ++ back⟩ = .ok (none, ⟨last, front ++ back⟩))
    (sameHead : rest.head? = back.head?)
    (notAtWord : front = [] → ∀ token ∈ back.head?, token.isWord = false)
    : argumentName ⟨last, front ++ rest⟩ = .ok (none, ⟨last, front ++ rest⟩) := by
  have absent := (argumentName_none_iff.mp unnamed).1
  refine argumentName_none_iff.mpr ⟨fun word colon behind split isWord => ?_, rfl⟩
  cases front with
  | nil =>
      obtain rfl : rest = word :: colon :: behind := split
      have notWord := notAtWord rfl word sameHead.symm
      simp [isWord] at notWord
  | cons first front =>
      obtain ⟨rfl, tail⟩ : first = word ∧ front ++ rest = colon :: behind :=
        List.cons.inj split
      cases front with
      | nil =>
          obtain rfl : rest = colon :: behind := tail
          obtain ⟨behind', rfl⟩ := List.head?_eq_some_iff.mp sameHead.symm
          exact absent first colon behind' rfl isWord
      | cons second front =>
          obtain ⟨rfl, -⟩ : second = colon ∧ front ++ rest = behind := List.cons.inj tail
          exact absent first second (front ++ back) rfl isWord

/-- What is behind the name of an argument, or at its place, decides. What has no name must not
stop at a word, since whether the word is a name is seen from the token behind it.
-/
theorem Decided.argumentName_bind {α : Type} {f : Option Token → Production α} {cursor : Cursor}
    {viable : List Token → Prop}
    (named : ∀ {name colon middle},
      name.isWord = true
      → colon.kind = .colon
      → cursor.Passes [name, colon] middle
      → Decided (f (some name)) (fun front => viable (name :: colon :: front)) middle)
    (unnamed : Decided (f none) viable cursor)
    (alone : ∀ {word : Token}, word.isWord = true
      → ∃ x, f none ⟨cursor.previous, [word]⟩ = .ok (x, ⟨word, []⟩))
    : Decided (argumentName >>= f) viable cursor := by
  rcases read : argumentName cursor with fault | ⟨_ | name, middle⟩
  · simp only [argumentName] at read
    split at read
    · split at read <;> simp at read
    · simp at read
  · obtain rfl := (argumentName_none_iff.mp read).2
    have again {front back : List Token} {outcome : List Token → Except Fault (α × Cursor)}
        (split : middle.rest = front ++ back)
        (direct : ∀ rest, rest.head? = back.head?
          → f none ⟨middle.previous, front ++ rest⟩ = outcome rest)
        (stays : front = [] → ∀ word x, outcome [word] ≠ .ok (x, ⟨word, []⟩))
        (rest : List Token) (sameHead : rest.head? = back.head?)
        : (argumentName >>= f) ⟨middle.previous, front ++ rest⟩ = outcome rest := by
      have notAtWord (atStart : front = []) : ∀ word ∈ back.head?, word.isWord = false := by
        intro word isNext
        by_contra isWord
        obtain ⟨x, taken⟩ := alone (by simpa using isWord)
        subst atStart
        exact stays rfl word x ((direct [word] isNext.symm).symm.trans taken)
      have reading : argumentName ⟨middle.previous, front ++ back⟩
          = .ok (none, ⟨middle.previous, front ++ back⟩) := by simpa only [← split] using read
      simp only [Bind.bind, argumentName_congr reading sameHead notAtWord]
      exact direct rest sameHead
    cases unnamed with
    | reads tokens x split direct =>
        exact .reads tokens x split (again split direct fun atStart => by simp [atStart])
    | fails front split found isViable direct =>
        exact .fails front split found isViable (again split direct fun _ => by simp)
  · obtain ⟨colon, isWord, isColon, passes⟩ := argumentName_some_iff.mp read
    refine Decided.bind (.reads [name, colon] (some name) passes.rest fun rest _ =>
      argumentName_some_iff.mpr ⟨colon, isWord, isColon, ⟨rfl, rfl⟩⟩) fun read' passes' => ?_
    obtain ⟨same, rfl⟩ := Prod.mk.inj (Except.ok.inj (read.symm.trans read'))
    obtain rfl := passes'.tokens_unique passes
    exact same ▸ named isWord isColon passes

theorem decided_argument (cursor : Cursor)
    : Decided argument (Begins Grammar.Argument) cursor := by
  have located : Decided
      (argumentName >>= fun name => value >>= fun value => previous >>= fun last =>
        pure (⟨name.map Token.toIdent, value,
          ((cursor.rest.head?.map Token.span).getD last.span).merge last.span⟩ : Argument))
      (Begins Grammar.Argument) cursor := by
    refine .argumentName_bind (fun {name colon middle} isWord isColon _ => ?_) ?_ ?_
    · have valued := (decided_value middle).embed [name, colon] fun isValue =>
        .of_part (Grammar.Argument.named isWord isColon isValue)
      exact valued.bind fun _ _ => .previous_bind (.pure _)
    · have valued := (decided_value cursor).embed [] fun isValue =>
        .of_part (Grammar.Argument.positional isValue)
      exact valued.bind fun _ _ => .previous_bind (.pure _)
    · intro word isWord
      have isValue : Grammar.Value [word] (.name word.text) := .name (.name (.word isWord))
      have passes : Cursor.Passes ⟨cursor.previous, [word]⟩ [word] ⟨word, []⟩ := ⟨rfl, rfl⟩
      have read := complete_value isValue passes (by simp [Cursor.kind])
      exact ⟨_, bind_eq_ok_iff.mpr ⟨_, _, read, rfl⟩⟩
  refine located.congr fun rest sameHead => ?_
  rw [argument, peekSpan_bind, sameHead]

theorem decided_arguments (cursor : Cursor)
    : Decided arguments (Begins Arguments) cursor := by
  refine .accept_bind (by decide) (fun {first middle} opens _ => ?_) fun _ => .pure _
  have enclosed := decided_itemsUntil (show TokenKind.rightParen ≠ .comma by decide)
    (by decide) takes_argument sound_argument decided_argument middle
  exact enclosed.embed [first] fun enclosed => by
    obtain ⟨items, last, rfl, separated, closes⟩ := enclosed
    exact .of_part (Arguments.present opens separated closes)

-----------------------------------------------------------------------------------------
-- Attributes
-----------------------------------------------------------------------------------------

theorem decided_attributeBody (cursor : Cursor)
    : Decided attributeBody (Begins Grammar.Attribute) cursor := by
  have named := (decided_dottedName .attributeName cursor).embed [] fun isName => by
    have isAttribute := Grammar.Attribute.mk isName .absent
    rw [List.append_nil] at isAttribute
    exact .of_part isAttribute
  refine named.sound_bind (sound_dottedName _) fun {tokens name middle} isName _ => ?_
  have called := (decided_arguments middle).embed tokens fun areArguments =>
    .of_part (Grammar.Attribute.mk isName areArguments)
  exact called.bind fun _ _ => .previous_bind (.pure _)

theorem decided_attributes (cursor : Cursor)
    : Decided attributes (Begins (Sequence (Marked .atSign Grammar.Attribute))) cursor := by
  refine .repeated_of_start advances_nextAttribute
    (fun done _ => ∃ xs, Sequence (Marked .atSign Grammar.Attribute) done xs) ⟨[], .nil⟩ ?_ ?_
  · intro done cursor areAttributes
    obtain ⟨xs, areAttributes⟩ := areAttributes
    refine .accept_bind (by decide) (fun {sign middle} isSign _ => ?_) fun _ => .pure _
    have read := (decided_attributeBody middle).embed (done ++ [sign]) fun isAttribute => by
      rw [List.append_assoc]
      exact .of_part (areAttributes.snoc (Marked.mk isSign isAttribute))
    simp only [List.append_assoc] at read
    exact read.bind fun _ _ => .pure _
  · intro done cursor tokens x next areAttributes read passes
    obtain ⟨xs, areAttributes⟩ := areAttributes
    obtain ⟨tokens', passes', isMarked⟩ := marked_of_nextAttribute read
    obtain rfl := passes.tokens_unique passes'
    exact ⟨_, areAttributes.snoc isMarked⟩

end Production

end SchemaDoc
