import SchemaDoc.Proofs.Grammar.Attributes

/-! The members of blocks: fields of a model and values of an enum.
A member is read up to its last token exactly as the grammar derives it. The comment behind it
is looked at from there, so every fact stops at the cursor in front of that comment.
-/

namespace SchemaDoc

namespace Production

open Grammar

theorem sound_fieldType : Sound fieldType TypeName := by
  intro cursor next type h
  obtain ⟨name, middle, read, later⟩ := bind_eq_ok h
  obtain ⟨isWord, namePassed⟩ := word_eq_ok.mp read
  rw [peekKind_bind] at later
  split at later
  next isUnsupported =>
    obtain ⟨first, _, opening, later⟩ := bind_eq_ok later
    obtain ⟨opens, firstPassed⟩ := token_eq_ok.mp opening
    obtain ⟨text, _, string, later⟩ := bind_eq_ok later
    obtain ⟨isString, textPassed⟩ := token_eq_ok.mp string
    obtain ⟨last, _, closing, later⟩ := bind_eq_ok later
    obtain ⟨closes, lastPassed⟩ := token_eq_ok.mp closing
    obtain ⟨rfl, rfl⟩ := pure_eq_ok.mp later
    exact ⟨[name, first, text, last],
      namePassed.cons (firstPassed.cons (textPassed.cons lastPassed)),
      .unsupported isWord isUnsupported.1 opens isString closes⟩
  next =>
    obtain ⟨rfl, rfl⟩ := pure_eq_ok.mp later
    exact ⟨[name], namePassed, .name isWord⟩

theorem complete_fieldType : Complete fieldType TypeName [.leftParen] := by
  intro cursor next tokens type isType passes ends
  rw [List.mem_singleton] at ends
  cases isType with
  | name isWord =>
      refine bind_eq_ok_iff.mpr ⟨_, next, word_eq_ok.mpr ⟨isWord, passes⟩, ?_⟩
      rw [peekKind_bind, if_neg fun both => ends both.2]
      rfl
  | unsupported isWord isUnsupported opens isString closes =>
      obtain ⟨first, namePassed, passes⟩ := passes.uncons
      obtain ⟨second, firstPassed, passes⟩ := passes.uncons
      obtain ⟨third, textPassed, lastPassed⟩ := passes.uncons
      refine bind_eq_ok_iff.mpr ⟨_, first, word_eq_ok.mpr ⟨isWord, namePassed⟩, ?_⟩
      rw [peekKind_bind, if_pos ⟨isUnsupported, firstPassed.kind_eq.trans opens⟩]
      refine bind_eq_ok_iff.mpr ⟨_, second, token_eq_ok.mpr ⟨opens, firstPassed⟩, ?_⟩
      refine bind_eq_ok_iff.mpr ⟨_, third, token_eq_ok.mpr ⟨isString, textPassed⟩, ?_⟩
      exact bind_eq_ok_iff.mpr ⟨_, next, token_eq_ok.mpr ⟨closes, lastPassed⟩, rfl⟩

theorem sound_listMark : Sound listMark ListMark := by
  intro cursor next isList h
  obtain ⟨opened, middle, accepted, later⟩ := bind_eq_ok h
  cases opened with
  | false =>
      obtain ⟨-, rfl⟩ := (accept_false_iff (by decide)).mp accepted
      obtain ⟨rfl, rfl⟩ := pure_eq_ok.mp later
      exact ⟨[], .refl _, .absent⟩
  | true =>
      obtain ⟨first, opens, firstPassed⟩ := accept_true_iff.mp accepted
      obtain ⟨last, _, closing, last_read⟩ := bind_eq_ok later
      obtain ⟨closes, lastPassed⟩ := token_eq_ok.mp closing
      obtain ⟨rfl, rfl⟩ := pure_eq_ok.mp last_read
      exact ⟨[first, last], firstPassed.cons lastPassed, .present opens closes⟩

theorem complete_listMark : Complete listMark ListMark [.leftBracket] := by
  intro cursor next tokens isList isMark passes ends
  rw [List.mem_singleton] at ends
  cases isMark with
  | absent =>
      obtain rfl := passes.eq_of_nil
      exact bind_eq_ok_iff.mpr
        ⟨false, next, (accept_false_iff (by decide)).mpr ⟨ends, rfl⟩, rfl⟩
  | present opens closes =>
      obtain ⟨middle, firstPassed, lastPassed⟩ := passes.uncons
      refine bind_eq_ok_iff.mpr
        ⟨true, middle, accept_true_iff.mpr ⟨_, opens, firstPassed⟩, ?_⟩
      exact bind_eq_ok_iff.mpr ⟨_, next, token_eq_ok.mpr ⟨closes, lastPassed⟩, rfl⟩

theorem sound_optionalMark : Sound (accept .question) OptionalMark := by
  intro cursor next isOptional h
  cases isOptional with
  | false =>
      obtain ⟨-, rfl⟩ := (accept_false_iff (by decide)).mp h
      exact ⟨[], .refl _, .absent⟩
  | true =>
      obtain ⟨token, isQuestion, passed⟩ := accept_true_iff.mp h
      exact ⟨[token], passed, .present isQuestion⟩

theorem complete_optionalMark : Complete (accept .question) OptionalMark [.question] := by
  intro cursor next tokens isOptional isMark passes ends
  rw [List.mem_singleton] at ends
  cases isMark with
  | absent =>
      obtain rfl := passes.eq_of_nil
      exact (accept_false_iff (by decide)).mpr ⟨ends, rfl⟩
  | present isQuestion => exact accept_true_iff.mpr ⟨_, isQuestion, passes⟩

/-- The kinds of tokens that could continue a member. -/
def memberFollow : List TokenKind := [.dot, .leftParen, .atSign, .question, .leftBracket]

/-- A kind of members, with how they are read and what the grammar says of them. Behind the
last token of a member the production looks for a comment, and `document` puts the comments
around the member into it.
-/
structure Member (α : Type) where
  read : Option Documentation → Production α
  takes : ∀ documentation, Takes 1 (read documentation)
  Derives : List Token → α → Prop
  document : Option Documentation → α → α
  begins : ∀ {tokens x},
    Derives tokens x → ∃ word back, tokens = word :: back ∧ word.isWord = true
  undocumented : ∀ {tokens x}, Derives tokens x → document none x = x
  sound : ∀ {documentation cursor next x},
    read documentation cursor = .ok (x, next)
    → ∃ tokens middle y comment,
        cursor.Passes tokens middle
        ∧ Derives tokens y
        ∧ trailingComment middle = .ok (comment, next)
        ∧ x = document (Documentation.extend? documentation comment) y
  complete : ∀ {documentation cursor middle next tokens y comment},
    Derives tokens y
    → cursor.Passes tokens middle
    → middle.kind ∉ memberFollow
    → trailingComment middle = .ok (comment, next)
    → read documentation cursor
      = .ok (document (Documentation.extend? documentation comment) y, next)

theorem sound_field {documentation : Option Documentation} {cursor next : Cursor}
    {x : Field} (h : field documentation cursor = .ok (x, next))
    : ∃ tokens middle y comment,
        cursor.Passes tokens middle
        ∧ Grammar.Field tokens y
        ∧ trailingComment middle = .ok (comment, next)
        ∧ x = { y with documentation := Documentation.extend? documentation comment } := by
  obtain ⟨name, _, named, later⟩ := bind_eq_ok h
  obtain ⟨isWord, namePassed⟩ := word_eq_ok.mp named
  obtain ⟨type, _, typed, later⟩ := bind_eq_ok later
  obtain ⟨types, typePassed, isType⟩ := sound_fieldType typed
  obtain ⟨isList, _, listed, later⟩ := bind_eq_ok later
  obtain ⟨lists, listPassed, isListMark⟩ := sound_listMark listed
  obtain ⟨isOptional, _, marked, later⟩ := bind_eq_ok later
  obtain ⟨marks, markPassed, isOptionalMark⟩ := sound_optionalMark marked
  obtain ⟨attributes, middle, read, later⟩ := bind_eq_ok later
  obtain ⟨back, attributesPassed, areAttributes⟩ := sound_attributes read
  rw [previous_bind] at later
  obtain ⟨comment, _, trails, later⟩ := bind_eq_ok later
  obtain ⟨rfl, rfl⟩ := pure_eq_ok.mp later
  have passes : cursor.Passes (name :: (types ++ (lists ++ (marks ++ back)))) middle :=
    namePassed.cons (typePassed.trans (listPassed.trans (markPassed.trans attributesPassed)))
  refine ⟨_, middle, _, comment, passes,
    .mk isWord isType isListMark isOptionalMark areAttributes rfl, trails, ?_⟩
  rw [passes.fullSpan_eq name.span, namePassed.rest]
  rfl

section Follow

variable {cursor next : Cursor} {tokens : List Token}

/-- Attributes are missing or tell their own first token. -/
theorem attributes_missing_or {attributes : List Attribute}
    (areAttributes : Sequence (Marked .atSign Grammar.Attribute) tokens attributes)
    (passes : cursor.Passes tokens next)
    : cursor.kind = .atSign ∨ cursor = next := by
  cases areAttributes with
  | nil => exact Or.inr passes.eq_of_nil.symm
  | cons head _ =>
      obtain ⟨isSign, _⟩ := head
      exact Or.inl (passes.kind_eq.trans isSign)

theorem optionalMark_missing_or {isOptional : Bool} (isMark : OptionalMark tokens isOptional)
    (passes : cursor.Passes tokens next)
    : cursor.kind = .question ∨ cursor = next := by
  cases isMark with
  | absent => exact Or.inr passes.eq_of_nil.symm
  | present isQuestion => exact Or.inl (passes.kind_eq.trans isQuestion)

theorem listMark_missing_or {isList : Bool} (isMark : ListMark tokens isList)
    (passes : cursor.Passes tokens next)
    : cursor.kind = .leftBracket ∨ cursor = next := by
  cases isMark with
  | absent => exact Or.inr passes.eq_of_nil.symm
  | present opens _ => exact Or.inl (passes.kind_eq.trans opens)

end Follow

theorem complete_field {documentation : Option Documentation}
    {cursor middle next : Cursor} {tokens : List Token} {y : Field} {comment : Option Token}
    (isField : Grammar.Field tokens y) (passes : cursor.Passes tokens middle)
    (ends : middle.kind ∉ memberFollow)
    (trails : trailingComment middle = .ok (comment, next))
    : field documentation cursor
      = .ok ({ y with documentation := Documentation.extend? documentation comment }, next) := by
  obtain ⟨isWord, isType, isListMark, isOptionalMark, areAttributes, rfl⟩ := isField
  simp only [memberFollow, List.mem_cons, List.not_mem_nil, or_false, not_or] at ends
  obtain ⟨behindName, namePassed, passes'⟩ := passes.uncons
  obtain ⟨behindType, typePassed, passes'⟩ := passes'.split
  obtain ⟨behindList, listPassed, passes'⟩ := passes'.split
  obtain ⟨behindMark, markPassed, attributesPassed⟩ := passes'.split
  -- each optional part is missing or tells its own first token, so nothing can be mistaken
  have markEnds : behindMark.kind ∉ [.leftParen, .leftBracket, .question] := by
    rcases attributes_missing_or areAttributes attributesPassed with stands | rfl
    · simp [stands]
    · simp [ends]
  have listEnds : behindList.kind ∉ [.leftParen, .leftBracket] := by
    rcases optionalMark_missing_or isOptionalMark markPassed with stands | rfl
    · simp [stands]
    · grind
  have typeEnds : behindType.kind ∉ [.leftParen] := by
    rcases listMark_missing_or isListMark listPassed with stands | rfl
    · simp [stands]
    · grind
  refine bind_eq_ok_iff.mpr ⟨_, behindName, word_eq_ok.mpr ⟨isWord, namePassed⟩, ?_⟩
  refine bind_eq_ok_iff.mpr ⟨_, behindType, complete_fieldType isType typePassed typeEnds, ?_⟩
  refine bind_eq_ok_iff.mpr ⟨_, behindList,
    complete_listMark isListMark listPassed fun member => listEnds (by simp_all), ?_⟩
  refine bind_eq_ok_iff.mpr ⟨_, behindMark,
    complete_optionalMark isOptionalMark markPassed fun member => markEnds (by simp_all), ?_⟩
  refine bind_eq_ok_iff.mpr ⟨_, middle,
    complete_attributes areAttributes attributesPassed (by simp [ends]), ?_⟩
  rw [previous_bind, passes.fullSpan_eq Span.none, passes.rest]
  exact bind_eq_ok_iff.mpr ⟨comment, next, trails, rfl⟩

/-- Fields as members of a model. -/
def fieldMember : Member Field where
  read := field
  takes := takes_field
  Derives := Grammar.Field
  document documentation field := { field with documentation }
  begins := by
    rintro _ _ ⟨isWord, _, _, _, _, rfl⟩
    exact ⟨_, _, rfl, isWord⟩
  undocumented := by
    rintro _ _ ⟨_, _, _, _, _, _⟩
    rfl
  sound := sound_field
  complete := complete_field

theorem sound_enumValue {documentation : Option Documentation} {cursor next : Cursor}
    {x : EnumValue} (h : enumValue documentation cursor = .ok (x, next))
    : ∃ tokens middle y comment,
        cursor.Passes tokens middle
        ∧ Grammar.EnumValue tokens y
        ∧ trailingComment middle = .ok (comment, next)
        ∧ x = { y with documentation := Documentation.extend? documentation comment } := by
  obtain ⟨name, _, named, later⟩ := bind_eq_ok h
  obtain ⟨isWord, namePassed⟩ := word_eq_ok.mp named
  obtain ⟨attributes, middle, read, later⟩ := bind_eq_ok later
  obtain ⟨back, attributesPassed, areAttributes⟩ := sound_attributes read
  obtain ⟨comment, _, trails, later⟩ := bind_eq_ok later
  obtain ⟨rfl, rfl⟩ := pure_eq_ok.mp later
  exact ⟨name :: back, middle, _, comment, namePassed.cons attributesPassed,
    .mk isWord areAttributes, trails, rfl⟩

theorem complete_enumValue {documentation : Option Documentation}
    {cursor middle next : Cursor} {tokens : List Token} {y : EnumValue}
    {comment : Option Token} (isValue : Grammar.EnumValue tokens y)
    (passes : cursor.Passes tokens middle) (ends : middle.kind ∉ memberFollow)
    (trails : trailingComment middle = .ok (comment, next))
    : enumValue documentation cursor
      = .ok ({ y with documentation := Documentation.extend? documentation comment }, next) := by
  obtain ⟨isWord, areAttributes⟩ := isValue
  simp only [memberFollow, List.mem_cons, List.not_mem_nil, or_false, not_or] at ends
  obtain ⟨behindName, namePassed, attributesPassed⟩ := passes.uncons
  refine bind_eq_ok_iff.mpr ⟨_, behindName, word_eq_ok.mpr ⟨isWord, namePassed⟩, ?_⟩
  refine bind_eq_ok_iff.mpr ⟨_, middle,
    complete_attributes areAttributes attributesPassed (by simp [ends]), ?_⟩
  exact bind_eq_ok_iff.mpr ⟨comment, next, trails, rfl⟩

/-- Values as members of an enum. -/
def enumValueMember : Member EnumValue where
  read := enumValue
  takes := takes_enumValue
  Derives := Grammar.EnumValue
  document documentation value := { value with documentation }
  begins := by
    rintro _ _ ⟨isWord, _⟩
    exact ⟨_, _, rfl, isWord⟩
  undocumented := by
    rintro _ _ ⟨_, _⟩
    rfl
  sound := sound_enumValue
  complete := complete_enumValue

end Production

end SchemaDoc
