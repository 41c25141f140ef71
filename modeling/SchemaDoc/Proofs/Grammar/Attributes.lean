import SchemaDoc.Proofs.Grammar.Names

/-! Attributes are read exactly as the grammar derives them, from the items of lists up to the
attributes of a field.
-/

namespace SchemaDoc

theorem Token.kind_ne_of_isWord {token : Token} {kind : TokenKind}
    (isWord : token.isWord = true) (other : kind.isWord = false)
    : token.kind ≠ kind := by
  rintro rfl
  rw [Token.isWord, other] at isWord
  exact Bool.noConfusion isWord

namespace Grammar

theorem Name.append_ne_nil {front back : List Token} {name : Ident}
    (isName : Name front name)
    : front ++ back ≠ [] := by
  obtain ⟨first, _, _, rfl, -⟩ := isName.split
  exact List.cons_ne_nil _ _

/-- An item begins with a text or a word, so with no other kind of token. -/
theorem Item.head_ne {tokens : List Token} {text : String} {kind : TokenKind}
    (isItem : Item tokens text) (other : kind.isWord = false) (notString : kind ≠ .string)
    : ∃ first back, tokens = first :: back ∧ first.kind ≠ kind := by
  cases isItem with
  | string isString => exact ⟨_, [], rfl, isString ▸ notString.symm⟩
  | reference isReference =>
      obtain ⟨first, back, rfl, isWord, -⟩ := isReference.uncons
      exact ⟨first, back, rfl, Token.kind_ne_of_isWord isWord other⟩

/-- A value begins with a literal, a bracket or a word, and no colon stands behind a word. -/
theorem Value.uncons {tokens : List Token} {value : SchemaDoc.Value}
    (isValue : Value tokens value)
    : ∃ first back,
        tokens = first :: back
        ∧ (first.kind ∈ [.string, .number, .boolean, .leftBracket]
          ∨ first.isWord = true ∧ ∀ second ∈ back.head?, second.kind ≠ .colon) := by
  have ofReference {tokens : List Token} {reference : String × Bool}
      (isReference : Reference tokens reference)
      : ∃ first back,
          tokens = first :: back
          ∧ first.isWord = true
          ∧ ∀ second ∈ back.head?, second.kind ≠ .colon := by
    obtain ⟨first, back, rfl, isWord, behind⟩ := isReference.uncons
    refine ⟨first, back, rfl, isWord, fun second member => ?_⟩
    rcases behind second member with isDot | opens
    · simp [isDot]
    · simp [opens]
  cases isValue with
  | string isString => exact ⟨_, [], rfl, Or.inl (by simp [isString])⟩
  | number isNumber _ => exact ⟨_, [], rfl, Or.inl (by simp [isNumber])⟩
  | boolean isBoolean => exact ⟨_, [], rfl, Or.inl (by simp [isBoolean])⟩
  | list opens _ _ => exact ⟨_, _, rfl, Or.inl (by simp [opens])⟩
  | name isReference =>
      obtain ⟨first, back, rfl, isWord, behind⟩ := ofReference isReference
      exact ⟨first, back, rfl, Or.inr ⟨isWord, behind⟩⟩
  | call isReference =>
      obtain ⟨first, back, rfl, isWord, behind⟩ := ofReference isReference
      exact ⟨first, back, rfl, Or.inr ⟨isWord, behind⟩⟩

/-- An argument begins with a literal, a bracket or a word, so with no other kind of token. -/
theorem Argument.head_ne {tokens : List Token} {argument : SchemaDoc.Argument}
    {kind : TokenKind} (isArgument : Argument tokens argument) (other : kind.isWord = false)
    (notLiteral : kind ∉ [.string, .number, .boolean, .leftBracket])
    : ∃ first back, tokens = first :: back ∧ first.kind ≠ kind := by
  cases isArgument with
  | positional isValue =>
      obtain ⟨first, back, rfl, literal | ⟨isWord, -⟩⟩ := isValue.uncons
      · exact ⟨first, back, rfl, fun is => notLiteral (is ▸ literal)⟩
      · exact ⟨first, back, rfl, Token.kind_ne_of_isWord isWord other⟩
  | named isWord _ _ => exact ⟨_, _, rfl, Token.kind_ne_of_isWord isWord other⟩

end Grammar

namespace Cursor

open Grammar

/-- The last token that is passed stands before the cursor. -/
theorem Passes.lastSpan_eq {cursor next : Cursor} {tokens : List Token}
    (h : cursor.Passes tokens next) (notEmpty : tokens ≠ [])
    : lastSpan tokens = next.previous.span := by
  rw [h.previous, lastSpan, List.getLast?_eq_some_getLast notEmpty]
  rfl

/-- The range of the tokens that are passed, as it is known at both ends. -/
theorem Passes.fullSpan_eq {cursor next : Cursor} {token : Token} {tokens : List Token}
    (h : cursor.Passes (token :: tokens) next) (other : Span)
    : fullSpan (token :: tokens)
      = ((cursor.rest.head?.map Token.span).getD other).merge next.previous.span := by
  rw [fullSpan, h.lastSpan_eq (List.cons_ne_nil _ _), h.rest]
  rfl

end Cursor

namespace Production

open Grammar

-----------------------------------------------------------------------------------------
-- Values
-----------------------------------------------------------------------------------------

theorem sound_listItem : Sound listItem Item := by
  refine .peekKind_bind fun kind => .ite ?_ ?_
  · intro cursor next text h
    obtain ⟨token, middle, read, later⟩ := bind_eq_ok h
    obtain ⟨isString, passed⟩ := token_eq_ok.mp read
    obtain ⟨rfl, rfl⟩ := pure_eq_ok.mp later
    exact ⟨[token], passed, .string isString⟩
  · intro cursor next text h
    obtain ⟨reference, middle, read, later⟩ := bind_eq_ok h
    obtain ⟨tokens, passes, isReference⟩ := sound_nameWithArguments _ read
    obtain ⟨rfl, rfl⟩ := pure_eq_ok.mp later
    exact ⟨tokens, passes, .reference isReference⟩

theorem complete_listItem : Complete listItem Item [.dot, .leftParen] := by
  intro cursor next tokens text isItem passes ends
  rw [listItem, peekKind_bind]
  cases isItem with
  | string isString =>
      rw [if_pos (passes.kind_eq.trans isString)]
      exact bind_eq_ok_iff.mpr ⟨_, next, token_eq_ok.mpr ⟨isString, passes⟩, rfl⟩
  | reference isReference =>
      obtain ⟨first, back, rfl, isWord, -⟩ := isReference.uncons
      rw [if_neg (passes.kind_eq ▸ Token.kind_ne_of_isWord isWord rfl)]
      have read := complete_nameWithArguments .listItem isReference passes ends
      exact bind_eq_ok_iff.mpr ⟨_, next, read, rfl⟩

theorem sound_number : Sound number Grammar.Value := by
  intro cursor next value h
  obtain ⟨literal, middle, read, later⟩ := bind_eq_ok h
  obtain ⟨isNumber, passed⟩ := token_eq_ok.mp read
  cases reads : Binary64.readLongest? literal.text.toList with
  | none => simp [reads] at later
  | some x =>
      rw [reads] at later
      obtain ⟨rfl, rfl⟩ := pure_eq_ok.mp later
      exact ⟨[literal], passed, .number isNumber reads⟩

theorem sound_value : Sound value Grammar.Value := by
  refine .peekKind_bind fun kind => ?_
  split
  next =>
    intro cursor next x h
    obtain ⟨token, middle, read, later⟩ := bind_eq_ok h
    obtain ⟨isString, passed⟩ := token_eq_ok.mp read
    obtain ⟨rfl, rfl⟩ := pure_eq_ok.mp later
    exact ⟨[token], passed, .string isString⟩
  next => exact sound_number
  next =>
    intro cursor next x h
    obtain ⟨token, middle, read, later⟩ := bind_eq_ok h
    obtain ⟨isBoolean, passed⟩ := token_eq_ok.mp read
    obtain ⟨rfl, rfl⟩ := pure_eq_ok.mp later
    exact ⟨[token], passed, .boolean isBoolean⟩
  next =>
    intro cursor next x h
    obtain ⟨first, middle, opening, later⟩ := bind_eq_ok h
    obtain ⟨opens, openingPassed⟩ := token_eq_ok.mp opening
    obtain ⟨names, behind, items, last⟩ := bind_eq_ok later
    obtain ⟨rfl, rfl⟩ := pure_eq_ok.mp last
    obtain ⟨tokens, closing, passes, separated, closes⟩ :=
      separated_of_itemsUntil (by decide) _ sound_listItem items
    exact ⟨first :: tokens ++ [closing], openingPassed.cons passes,
      .list opens separated closes⟩
  next =>
    intro cursor next x h
    obtain ⟨⟨text, called⟩, middle, read, later⟩ := bind_eq_ok h
    obtain ⟨tokens, passes, isReference⟩ := sound_nameWithArguments _ read
    obtain ⟨rfl, rfl⟩ := pure_eq_ok.mp later
    cases called with
    | false => exact ⟨tokens, passes, .name isReference⟩
    | true => exact ⟨tokens, passes, .call isReference⟩

/-- Where a word stands, a reference is read. -/
theorem value_of_isWord {cursor : Cursor} (isWord : cursor.kind.isWord = true)
    : value cursor
      = (nameWithArguments .attributeValue >>= fun name =>
          pure (if name.2 then Value.call name.1 else .name name.1)) cursor := by
  rw [value, peekKind_bind]
  cases kind : cursor.kind <;> first | rfl | simp [kind, TokenKind.isWord] at isWord

theorem complete_value : Complete value Grammar.Value [.dot, .leftParen] := by
  intro cursor next tokens x isValue passes ends
  have ofReference {text : String} {called : Bool}
      (isReference : Reference tokens (text, called))
      : value cursor = .ok (if called then .call text else .name text, next) := by
    obtain ⟨first, back, rfl, isWord, -⟩ := isReference.uncons
    rw [value_of_isWord (passes.kind_eq ▸ isWord)]
    have read := complete_nameWithArguments .attributeValue isReference passes ends
    exact bind_eq_ok_iff.mpr ⟨_, next, read, rfl⟩
  cases isValue with
  | string isString =>
      rw [value, peekKind_bind, passes.kind_eq, isString]
      exact bind_eq_ok_iff.mpr ⟨_, next, token_eq_ok.mpr ⟨isString, passes⟩, rfl⟩
  | number isNumber reads =>
      rw [value, peekKind_bind, passes.kind_eq, isNumber]
      refine bind_eq_ok_iff.mpr ⟨_, next, token_eq_ok.mpr ⟨isNumber, passes⟩, ?_⟩
      rw [reads]
      rfl
  | boolean isBoolean =>
      rw [value, peekKind_bind, passes.kind_eq, isBoolean]
      exact bind_eq_ok_iff.mpr ⟨_, next, token_eq_ok.mpr ⟨isBoolean, passes⟩, rfl⟩
  | list opens items closes =>
      rw [value, peekKind_bind, passes.kind_eq, opens]
      obtain ⟨middle, openingPassed, itemsPassed⟩ := passes.uncons
      have read := itemsUntil_of_separated (by decide) takes_listItem complete_listItem
        (by decide) (by decide) (fun isItem => isItem.head_ne rfl (by decide)) items closes
        itemsPassed
      refine bind_eq_ok_iff.mpr ⟨_, middle, token_eq_ok.mpr ⟨opens, openingPassed⟩, ?_⟩
      exact bind_eq_ok_iff.mpr ⟨_, next, read, rfl⟩
  | name isReference => exact ofReference isReference
  | call isReference => exact ofReference isReference

-----------------------------------------------------------------------------------------
-- Arguments
-----------------------------------------------------------------------------------------

/-- The name of an argument is read where a word with a colon behind it stands. -/
theorem argumentName_some_iff {cursor next : Cursor} {name : Token}
    : argumentName cursor = .ok (some name, next)
      ↔ ∃ colon : Token,
          name.isWord = true ∧ colon.kind = .colon ∧ cursor.Passes [name, colon] next := by
  obtain ⟨previous, rest⟩ := cursor
  obtain ⟨previous', rest'⟩ := next
  unfold argumentName
  constructor
  · intro h
    split at h
    next word colon rest split =>
      split at h
      next holds =>
        simp only [Bool.and_eq_true, decide_eq_true_eq] at holds
        obtain ⟨rfl, rfl, rfl⟩ : word = name ∧ colon = previous' ∧ rest = rest' := by
          simpa using h
        exact ⟨colon, holds.1, holds.2, split, rfl⟩
      next => simp at h
    next => simp at h
  · rintro ⟨colon, isWord, isColon, rest, last⟩
    simp_all

/-- An argument has no name where no word with a colon behind it stands, and the cursor stays
there.
-/
theorem argumentName_none_iff {cursor next : Cursor}
    : argumentName cursor = .ok (none, next)
      ↔ (∀ word colon rest,
          cursor.rest = word :: colon :: rest → word.isWord = true → colon.kind ≠ .colon)
        ∧ next = cursor := by
  unfold argumentName
  split
  next word colon rest split =>
    split
    next holds =>
      simp only [Bool.and_eq_true, decide_eq_true_eq] at holds
      simp only [Except.ok.injEq, Prod.mk.injEq, reduceCtorEq, false_and, false_iff, not_and]
      exact fun absent => absurd holds.2 (absent word colon rest split holds.1)
    next fails =>
      simp only [Except.ok.injEq, Prod.mk.injEq, true_and]
      constructor
      · rintro rfl
        refine ⟨fun word' colon' rest' same isWord isColon => fails ?_, rfl⟩
        obtain ⟨rfl, rfl, -⟩ : word = word' ∧ colon = colon' ∧ rest = rest' := by
          simpa [split] using same
        simp [isWord, isColon]
      · exact fun stays => stays.2.symm
  next other =>
    simp only [Except.ok.injEq, Prod.mk.injEq, true_and]
    constructor
    · rintro rfl
      exact ⟨fun word colon rest same => absurd same (other word colon rest), rfl⟩
    · exact fun stays => stays.2.symm

/-- The first token at a cursor has its range, and looking at it does not move. -/
theorem peekSpan_bind {α : Type} {f : Option Span → Production α} {cursor : Cursor}
    : (peekSpan >>= f) cursor = f (cursor.rest.head?.map Token.span) cursor :=
  rfl

/-- The token before a cursor is at hand. -/
theorem previous_bind {α : Type} {f : Token → Production α} {cursor : Cursor}
    : (previous >>= f) cursor = f cursor.previous cursor :=
  rfl

theorem sound_argument : Sound argument Grammar.Argument := by
  intro cursor next x h
  rw [argument, peekSpan_bind] at h
  obtain ⟨name, middle, named, later⟩ := bind_eq_ok h
  obtain ⟨v, behind, read, last⟩ := bind_eq_ok later
  obtain ⟨tokens, passes, isValue⟩ := sound_value read
  rw [previous_bind] at last
  obtain ⟨rfl, rfl⟩ := pure_eq_ok.mp last
  cases name with
  | none =>
      obtain ⟨-, rfl⟩ := argumentName_none_iff.mp named
      obtain ⟨first, back, rfl, -⟩ := isValue.uncons
      rw [← passes.fullSpan_eq]
      exact ⟨_, passes, .positional isValue⟩
  | some name =>
      obtain ⟨colon, isWord, isColon, named⟩ := argumentName_some_iff.mp named
      have all : cursor.Passes (name :: colon :: tokens) next := named.trans passes
      rw [← all.fullSpan_eq]
      exact ⟨_, all, .named isWord isColon isValue⟩

/-- A value is not taken for the name of an argument. The token behind its first one is in the
value, or else behind it.
-/
theorem argumentName_of_value {cursor next : Cursor} {tokens : List Token} {x : Value}
    (isValue : Grammar.Value tokens x) (passes : cursor.Passes tokens next)
    (ends : next.kind ≠ .colon)
    : argumentName cursor = .ok (none, cursor) := by
  refine argumentName_none_iff.mpr ⟨fun word colon rest split isWord isColon => ?_, rfl⟩
  obtain ⟨first, back, rfl, begins⟩ := isValue.uncons
  obtain ⟨rfl, tail⟩ := List.cons.inj (passes.rest.symm.trans split)
  rcases begins with literal | ⟨-, behind⟩
  · simp only [List.mem_cons, List.not_mem_nil, or_false] at literal
    rcases literal with is | is | is | is <;> exact Token.kind_ne_of_isWord isWord rfl is
  · cases back with
    | nil => exact ends (by simpa [Cursor.kind, show next.rest = _ from tail] using isColon)
    | cons second back =>
        obtain ⟨rfl, -⟩ := List.cons.inj tail
        exact behind second rfl isColon

theorem complete_argument
    : Complete argument Grammar.Argument [.dot, .leftParen, .colon] := by
  intro cursor next tokens x isArgument passes ends
  simp only [List.mem_cons, List.not_mem_nil, or_false, not_or] at ends
  have valueEnds : next.kind ∉ [.dot, .leftParen] := by simp [ends.1, ends.2.1]
  rw [argument, peekSpan_bind]
  cases isArgument with
  | positional isValue =>
      have unnamed := argumentName_of_value isValue passes ends.2.2
      have read := complete_value isValue passes valueEnds
      obtain ⟨first, back, rfl, -⟩ := isValue.uncons
      refine bind_eq_ok_iff.mpr ⟨none, cursor, unnamed, bind_eq_ok_iff.mpr ⟨_, next, read, ?_⟩⟩
      rw [previous_bind, passes.fullSpan_eq]
      rfl
  | named isWord isColon isValue =>
      obtain ⟨middle, namePassed, valuePassed⟩ := @Cursor.Passes.split _ _ [_, _] _ passes
      have named := argumentName_some_iff.mpr ⟨_, isWord, isColon, namePassed⟩
      have read := complete_value isValue valuePassed valueEnds
      refine bind_eq_ok_iff.mpr
        ⟨some _, middle, named, bind_eq_ok_iff.mpr ⟨_, next, read, ?_⟩⟩
      rw [previous_bind, passes.fullSpan_eq]
      rfl

theorem sound_arguments : Sound arguments Arguments := by
  intro cursor next xs h
  obtain ⟨opened, middle, accepted, later⟩ := bind_eq_ok h
  cases opened with
  | false =>
      obtain ⟨-, rfl⟩ := (accept_false_iff (by decide)).mp accepted
      obtain ⟨rfl, rfl⟩ := pure_eq_ok.mp later
      exact ⟨[], .refl _, .absent⟩
  | true =>
      obtain ⟨first, opens, openingPassed⟩ := accept_true_iff.mp accepted
      obtain ⟨tokens, last, passes, separated, closes⟩ :=
        separated_of_itemsUntil (by decide) takes_argument sound_argument later
      exact ⟨first :: tokens ++ [last], openingPassed.cons passes,
        .present opens separated closes⟩

theorem complete_arguments : Complete arguments Arguments [.leftParen] := by
  intro cursor next tokens xs areArguments passes ends
  rw [List.mem_singleton] at ends
  cases areArguments with
  | absent =>
      obtain rfl := passes.eq_of_nil
      have absent := (accept_false_iff (by decide)).mpr ⟨ends, rfl⟩
      exact bind_eq_ok_iff.mpr ⟨false, next, absent, rfl⟩
  | present opens items closes =>
      obtain ⟨middle, openingPassed, itemsPassed⟩ := passes.uncons
      have read := itemsUntil_of_separated (by decide) takes_argument complete_argument
        (by decide) (by decide) (fun isArgument => isArgument.head_ne rfl (by decide))
        items closes itemsPassed
      exact bind_eq_ok_iff.mpr
        ⟨true, middle, accept_true_iff.mpr ⟨_, opens, openingPassed⟩, read⟩

-----------------------------------------------------------------------------------------
-- Attributes
-----------------------------------------------------------------------------------------

theorem sound_attributeBody : Sound attributeBody Grammar.Attribute := by
  intro cursor next x h
  obtain ⟨name, middle, named, later⟩ := bind_eq_ok h
  obtain ⟨front, namePassed, isName⟩ := sound_dottedName _ named
  obtain ⟨xs, behind, read, last⟩ := bind_eq_ok later
  obtain ⟨back, argumentsPassed, areArguments⟩ := sound_arguments read
  rw [previous_bind] at last
  obtain ⟨rfl, rfl⟩ := pure_eq_ok.mp last
  have passes := namePassed.trans argumentsPassed
  rw [← passes.lastSpan_eq isName.append_ne_nil]
  exact ⟨front ++ back, passes, .mk isName areArguments⟩

theorem complete_attributeBody
    : Complete attributeBody Grammar.Attribute [.dot, .leftParen] := by
  intro cursor next tokens x isAttribute passes ends
  simp only [List.mem_cons, List.not_mem_nil, or_false, not_or] at ends
  obtain ⟨isName, areArguments⟩ := isAttribute
  obtain ⟨middle, namePassed, argumentsPassed⟩ := passes.split
  have behindName : middle.kind ∉ [.dot] := by
    cases areArguments with
    | absent => simpa [argumentsPassed.eq_of_nil] using ends.1
    | present opens _ _ => simp [argumentsPassed.kind_eq, opens]
  have named := complete_dottedName .attributeName isName namePassed behindName
  have read := complete_arguments areArguments argumentsPassed (by simpa using ends.2)
  refine bind_eq_ok_iff.mpr ⟨_, middle, named, bind_eq_ok_iff.mpr ⟨_, next, read, ?_⟩⟩
  rw [previous_bind, passes.lastSpan_eq isName.append_ne_nil]
  rfl

/-- An attribute that is read with its sign has a derivation. -/
theorem marked_of_nextAttribute {cursor next : Cursor} {x : Attribute}
    (h : nextAttribute cursor = .ok (some x, next))
    : ∃ tokens, cursor.Passes tokens next ∧ Marked .atSign Grammar.Attribute tokens x := by
  obtain ⟨marked, middle, accepted, later⟩ := bind_eq_ok h
  cases marked with
  | false =>
      obtain ⟨absurd, -⟩ := pure_eq_ok.mp later
      simp at absurd
  | true =>
      obtain ⟨sign, isSign, signPassed⟩ := accept_true_iff.mp accepted
      obtain ⟨y, behind, read, last⟩ := bind_eq_ok later
      obtain ⟨same, rfl⟩ := pure_eq_ok.mp last
      obtain rfl := Option.some.inj same
      obtain ⟨tokens, passes, isAttribute⟩ := sound_attributeBody read
      exact ⟨sign :: tokens, signPassed.cons passes, .mk isSign isAttribute⟩

/-- Attributes end where no sign follows, and the cursor stays there. -/
theorem nextAttribute_none_iff {cursor next : Cursor}
    : nextAttribute cursor = .ok (none, next) ↔ cursor.kind ≠ .atSign ∧ next = cursor := by
  rw [← accept_false_iff (by decide)]
  constructor
  · intro h
    obtain ⟨marked, middle, accepted, later⟩ := bind_eq_ok h
    cases marked with
    | false =>
        obtain ⟨-, rfl⟩ := pure_eq_ok.mp later
        exact accepted
    | true =>
        obtain ⟨_, _, _, last⟩ := bind_eq_ok later
        obtain ⟨absurd, -⟩ := pure_eq_ok.mp last
        simp at absurd
  · exact fun accepted => bind_eq_ok_iff.mpr ⟨false, next, accepted, rfl⟩

theorem sound_attributes
    : Sound attributes (Sequence (Marked .atSign Grammar.Attribute)) := by
  intro cursor next xs h
  obtain ⟨tokens, middle, passes, areAttributes, stopped⟩ :=
    sequence_of_repeats marked_of_nextAttribute ((repeated_eq_ok _).mp h)
  obtain ⟨-, rfl⟩ := nextAttribute_none_iff.mp stopped
  exact ⟨tokens, passes, areAttributes⟩

theorem complete_attributes
    : Complete attributes (Sequence (Marked .atSign Grammar.Attribute))
        [.dot, .leftParen, .atSign] := by
  intro cursor next tokens xs areAttributes passes ends
  simp only [List.mem_cons, List.not_mem_nil, or_false, not_or] at ends
  have run := repeats_of_sequence (fun cursor => cursor.kind ∉ [.dot, .leftParen])
    (fun isMarked passes ends => by
      obtain ⟨isSign, isAttribute⟩ := isMarked
      obtain ⟨middle, signPassed, bodyPassed⟩ := passes.uncons
      have read := complete_attributeBody isAttribute bodyPassed ends
      refine bind_eq_ok_iff.mpr ⟨true, middle, accept_true_iff.mpr ⟨_, isSign, signPassed⟩, ?_⟩
      exact bind_eq_ok_iff.mpr ⟨_, _, read, rfl⟩)
    (fun isMarked passes => by
      obtain ⟨isSign, _⟩ := isMarked
      simp [passes.kind_eq, isSign])
    areAttributes passes (by simp [ends.1, ends.2.1]) (nextAttribute_none_iff.mpr ⟨ends.2.2, rfl⟩)
  exact (repeated_eq_ok _).mpr run.1

end Production

end SchemaDoc
