import SchemaDoc.Proofs.Grammar.Repetition

/-! Names and groups are read exactly as the grammar derives them.
Every production gets two facts: what it reads has a derivation, and what has a derivation is
read, provided that the token behind it could not continue it.
-/

namespace SchemaDoc

namespace Grammar

/-- The part of a name behind a dot, together with the dot. -/
inductive Segment : List Token → Token → Prop
  | mk {dot segment : Token} (isDot : dot.kind = .dot) (isWord : segment.isWord = true)
    : Segment [dot, segment] segment

/-- A name grows by the segments behind it. -/
theorem Name.append {front back : List Token} {name : Ident} {segments : List Token}
    (isName : Name front name) (more : Sequence Segment back segments)
    : Name (front ++ back) (segments.foldl Production.extendName name) := by
  induction more generalizing front name with
  | nil => simpa using isName
  | cons head _ ih =>
      obtain ⟨isDot, isWord⟩ := head
      simpa only [List.append_assoc, List.foldl_cons] using ih (.dotted isName isDot isWord)

/-- A name is a word with segments behind it, by induction from its end. -/
theorem Name.split {tokens : List Token} {name : Ident} (isName : Name tokens name)
    : ∃ first back segments,
        tokens = first :: back
        ∧ first.isWord = true
        ∧ Sequence Segment back segments
        ∧ name = segments.foldl Production.extendName first.toIdent := by
  induction isName with
  | word isWord => exact ⟨_, [], [], rfl, isWord, .nil, rfl⟩
  | dotted _ isDot isWord ih =>
      obtain ⟨first, back, segments, rfl, firstWord, more, rfl⟩ := ih
      exact ⟨first, _, segments ++ [_], rfl, firstWord, more.snoc (.mk isDot isWord),
        by rw [List.foldl_append]; rfl⟩

/-- A reference begins with a word. Behind it stands a dot or a parenthesis, if anything. -/
theorem Reference.uncons {tokens : List Token} {reference : String × Bool}
    (isReference : Reference tokens reference)
    : ∃ first back,
        tokens = first :: back
        ∧ first.isWord = true
        ∧ ∀ second ∈ back.head?, second.kind = .dot ∨ second.kind = .leftParen := by
  have afterName {front back : List Token} {name : Ident} (isName : Name front name)
      (behind : ∀ second ∈ back.head?, second.kind = .leftParen)
      : ∃ first rest,
          front ++ back = first :: rest
          ∧ first.isWord = true
          ∧ ∀ second ∈ rest.head?, second.kind = .dot ∨ second.kind = .leftParen := by
    obtain ⟨first, segments, _, rfl, isWord, areSegments, -⟩ := isName.split
    refine ⟨first, segments ++ back, rfl, isWord, ?_⟩
    cases areSegments with
    | nil => exact fun second member => Or.inr (behind second member)
    | cons head _ =>
        obtain ⟨isDot, _⟩ := head
        rintro second member
        obtain rfl := Option.some.inj member
        exact Or.inl isDot
  cases isReference with
  | name isName => simpa using @afterName _ [] _ isName (by simp)
  | call isName isGroup =>
      obtain ⟨opens, _, _⟩ := isGroup
      exact afterName isName (by simpa using opens)

end Grammar

namespace Production

open Grammar

-----------------------------------------------------------------------------------------
-- Groups
-----------------------------------------------------------------------------------------

/-- A token opens a group, closes one, or does not matter. -/
theorem skipGroup_cons (opening closing : TokenKind) (depth : Nat) (token : Token)
    (rest : List Token)
    : skipGroup opening closing depth (token :: rest)
      = if token.kind = opening then skipGroup opening closing (depth + 1) rest
        else if token.kind = closing then
          match depth with
          | 0 => .ok ((), ⟨token, rest⟩)
          | depth + 1 => skipGroup opening closing depth rest
        else skipGroup opening closing depth rest := by
  cases depth <;> rfl

/-- Balanced tokens are passed over at any depth. -/
theorem skipGroup_append {opening closing : TokenKind} (differ : opening ≠ closing)
    {inner : List Token} (balanced : Balanced opening closing inner) (depth : Nat)
    (rest : List Token)
    : skipGroup opening closing depth (inner ++ rest)
      = skipGroup opening closing depth rest := by
  induction balanced generalizing depth rest with
  | nil => rfl
  | other notOpening notClosing _ ih =>
      rw [List.cons_append, skipGroup_cons, if_neg notOpening, if_neg notClosing, ih]
  | group opens _ closes _ within behind =>
      rw [List.cons_append, List.cons_append, skipGroup_cons, if_pos opens, List.append_assoc,
        within, List.cons_append, skipGroup_cons, if_neg (closes ▸ differ.symm), if_pos closes]
      exact behind depth rest

/-- What is passed over up to a closing token is balanced. Behind that token the groups around
it are still open, so the claim is repeated there, by recursion on the length of the rest.
-/
theorem balanced_of_skipGroup {opening closing : TokenKind} {depth : Nat}
    {tokens : List Token} {result : Unit × Cursor}
    (h : skipGroup opening closing depth tokens = .ok result)
    : ∃ inner last rest,
        tokens = inner ++ last :: rest
        ∧ Balanced opening closing inner
        ∧ last.kind = closing
        ∧ match depth with
          | 0 => result.2 = ⟨last, rest⟩
          | depth + 1 => skipGroup opening closing depth rest = .ok result := by
  cases tokens with
  | nil => simp [skipGroup] at h
  | cons token tokens =>
      rw [skipGroup_cons] at h
      split at h
      next opens =>
        obtain ⟨inner, last, rest, rfl, within, closes, h⟩ := balanced_of_skipGroup h
        obtain ⟨inner', last', rest', rfl, behind, closes', h⟩ := balanced_of_skipGroup h
        exact ⟨token :: inner ++ last :: inner', last', rest', by simp,
          .group opens within closes behind, closes', h⟩
      next notOpening =>
        split at h
        next closes =>
          refine ⟨[], token, tokens, rfl, .nil, closes, ?_⟩
          cases depth with
          | zero => rw [← Except.ok.inj h]
          | succ depth => exact h
        next notClosing =>
          obtain ⟨inner, last, rest, rfl, behind, closes, h⟩ := balanced_of_skipGroup h
          exact ⟨token :: inner, last, rest, rfl, .other notOpening notClosing behind, closes, h⟩
termination_by tokens.length
decreasing_by
  all_goals subst_vars; simp [*]
  all_goals omega

theorem sound_group (opening closing : TokenKind)
    : Sound (group opening closing) fun tokens _ => Group opening closing tokens := by
  intro cursor next x h
  obtain ⟨first, middle, opens, h⟩ := bind_eq_ok h
  obtain ⟨opens, first_passed⟩ := token_eq_ok.mp opens
  obtain ⟨inner, last, rest, split, within, closes, same⟩ := balanced_of_skipGroup h
  obtain rfl : next = ⟨last, rest⟩ := same
  refine ⟨first :: inner ++ [last], ?_, .mk opens within closes⟩
  exact first_passed.cons ⟨by simp [split], by simp⟩

theorem complete_group {opening closing : TokenKind} (differ : opening ≠ closing)
    : Complete (group opening closing) (fun tokens _ => Group opening closing tokens) [] := by
  intro cursor next tokens _ isGroup passes _
  obtain ⟨opens, within, closes⟩ := isGroup
  obtain ⟨middle, first_passed, passes⟩ := passes.uncons
  refine bind_eq_ok_iff.mpr ⟨_, middle, token_eq_ok.mpr ⟨opens, first_passed⟩, ?_⟩
  have last : next.previous = _ := passes.previous_of_getLast? List.getLast?_concat
  change skipGroup opening closing 0 middle.rest = _
  rw [passes.rest, List.append_eq, List.append_assoc, skipGroup_append differ within,
    List.singleton_append, skipGroup_cons, if_neg (closes ▸ differ.symm), if_pos closes, ← last]

-----------------------------------------------------------------------------------------
-- Names
-----------------------------------------------------------------------------------------

theorem segment_of_nameSegment {cursor next : Cursor} {segment : Token}
    (h : nameSegment cursor = .ok (some segment, next))
    : ∃ tokens, cursor.Passes tokens next ∧ Segment tokens segment := by
  obtain ⟨dotted, middle, accepted, h⟩ := bind_eq_ok h
  cases dotted with
  | false =>
      obtain ⟨absurd, -⟩ := pure_eq_ok.mp h
      simp at absurd
  | true =>
      obtain ⟨dot, isDot, dotPassed⟩ := accept_true_iff.mp accepted
      obtain ⟨found, behind, read, h⟩ := bind_eq_ok h
      obtain ⟨isWord, wordPassed⟩ := word_eq_ok.mp read
      obtain ⟨same, rfl⟩ := pure_eq_ok.mp h
      obtain rfl := Option.some.inj same
      exact ⟨[dot, segment], dotPassed.cons wordPassed, .mk isDot isWord⟩

/-- A name ends where no dot follows, and the cursor stays there. -/
theorem nameSegment_none_iff {cursor next : Cursor}
    : nameSegment cursor = .ok (none, next) ↔ cursor.kind ≠ .dot ∧ next = cursor := by
  rw [← accept_false_iff (by decide)]
  constructor
  · intro h
    obtain ⟨dotted, middle, accepted, later⟩ := bind_eq_ok h
    cases dotted with
    | false =>
        obtain ⟨-, rfl⟩ := pure_eq_ok.mp later
        exact accepted
    | true =>
        obtain ⟨_, _, _, last⟩ := bind_eq_ok later
        obtain ⟨absurd, -⟩ := pure_eq_ok.mp last
        simp at absurd
  · exact fun accepted => bind_eq_ok_iff.mpr ⟨false, next, accepted, rfl⟩

theorem nameSegment_of_segment {tokens : List Token} {segment : Token}
    (isSegment : Segment tokens segment) {cursor next : Cursor}
    (passes : cursor.Passes tokens next)
    : nameSegment cursor = .ok (some segment, next) := by
  obtain ⟨isDot, isWord⟩ := isSegment
  obtain ⟨middle, dotPassed, wordPassed⟩ := passes.uncons
  refine bind_eq_ok_iff.mpr ⟨true, middle, accept_true_iff.mpr ⟨_, isDot, dotPassed⟩, ?_⟩
  exact bind_eq_ok_iff.mpr ⟨segment, next, word_eq_ok.mpr ⟨isWord, wordPassed⟩, rfl⟩

theorem sound_dottedName (expected : Expectation) : Sound (dottedName expected) Name := by
  intro cursor next name h
  obtain ⟨first, middle, isWord, h⟩ := bind_eq_ok h
  obtain ⟨isWord, firstPassed⟩ := word_eq_ok.mp isWord
  obtain ⟨segments, behind, run, h⟩ := bind_eq_ok h
  obtain ⟨rfl, rfl⟩ := pure_eq_ok.mp h
  obtain ⟨back, last, passes, areSegments, stopped⟩ :=
    sequence_of_repeats segment_of_nameSegment ((repeated_eq_ok _).mp run)
  obtain ⟨-, rfl⟩ := nameSegment_none_iff.mp stopped
  exact ⟨first :: back, firstPassed.cons passes, Name.append (.word isWord) areSegments⟩

theorem complete_dottedName (expected : Expectation)
    : Complete (dottedName expected) Name [.dot] := by
  intro cursor next tokens name isName passes ends
  rw [List.mem_singleton] at ends
  obtain ⟨first, back, segments, rfl, isWord, areSegments, rfl⟩ := isName.split
  obtain ⟨middle, firstPassed, backPassed⟩ := passes.uncons
  have run : Repeats nameSegment middle segments next :=
    (repeats_of_sequence (fun _ => True)
      (fun isSegment passes _ => nameSegment_of_segment isSegment passes)
      (fun _ _ => trivial) areSegments backPassed trivial
      (nameSegment_none_iff.mpr ⟨ends, rfl⟩)).1
  refine bind_eq_ok_iff.mpr ⟨first, middle, word_eq_ok.mpr ⟨isWord, firstPassed⟩, ?_⟩
  exact bind_eq_ok_iff.mpr ⟨segments, next, (repeated_eq_ok _).mpr run, rfl⟩

theorem sound_nameWithArguments (expected : Expectation)
    : Sound (nameWithArguments expected) Reference := by
  intro cursor next reference h
  obtain ⟨name, middle, read, later⟩ := bind_eq_ok h
  obtain ⟨front, passes, isName⟩ := sound_dottedName _ read
  rw [peekKind_bind] at later
  split at later
  next =>
    obtain ⟨_, behind, skipped, last⟩ := bind_eq_ok later
    obtain ⟨rfl, rfl⟩ := pure_eq_ok.mp last
    obtain ⟨back, passes', isGroup⟩ := sound_group _ _ skipped
    exact ⟨front ++ back, passes.trans passes', .call isName isGroup⟩
  next =>
    obtain ⟨rfl, rfl⟩ := pure_eq_ok.mp later
    exact ⟨front, passes, .name isName⟩

theorem complete_nameWithArguments (expected : Expectation)
    : Complete (nameWithArguments expected) Reference [.dot, .leftParen] := by
  intro cursor next tokens reference isReference passes ends
  simp only [List.mem_cons, List.not_mem_nil, or_false, not_or] at ends
  cases isReference with
  | name isName =>
      have read := complete_dottedName expected isName passes (by simpa using ends.1)
      refine bind_eq_ok_iff.mpr ⟨_, next, read, ?_⟩
      rw [peekKind_bind, if_neg ends.2]
      rfl
  | call isName isGroup =>
      obtain ⟨middle, nameBehind, groupPassed⟩ := passes.split
      have skipped : group .leftParen .rightParen middle = .ok ((), next) :=
        complete_group (by decide) isGroup groupPassed (by simp)
      obtain ⟨opens, _, _⟩ := isGroup
      have stands : middle.kind = .leftParen := groupPassed.kind_eq.trans opens
      have read := complete_dottedName expected isName nameBehind (by simp [stands])
      refine bind_eq_ok_iff.mpr ⟨_, middle, read, ?_⟩
      rw [peekKind_bind, if_pos stands]
      exact bind_eq_ok_iff.mpr ⟨(), next, skipped, rfl⟩

end Production

end SchemaDoc
