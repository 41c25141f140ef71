import SchemaDoc.Proofs.Grammar.Entries

/-! Declarations are read exactly as they are derived, comments included. -/

namespace SchemaDoc

namespace Grammar

/-- A declaration begins with its keyword. -/
theorem CommentedDeclaration.uncons {documentation : Option Documentation}
    {tokens : List Token} {d : SchemaDoc.Declaration}
    (isDeclaration : CommentedDeclaration documentation tokens d)
    : ∃ first back,
        tokens = first :: back
        ∧ first.kind ∈ [.model, .enum, .datasource, .generator] := by
  cases isDeclaration with
  | model isBlock =>
      obtain ⟨isKeyword, _⟩ := isBlock
      exact ⟨_, _, rfl, by simp [isKeyword]⟩
  | enum isBlock =>
      obtain ⟨isKeyword, _⟩ := isBlock
      exact ⟨_, _, rfl, by simp [isKeyword]⟩
  | ignored isIgnored =>
      obtain ⟨isKeyword, _, _⟩ := isIgnored
      rcases isKeyword with isKeyword | isKeyword <;> exact ⟨_, _, rfl, by simp [isKeyword]⟩

/-- A declaration ends in a closing brace. -/
theorem CommentedDeclaration.getLast? {documentation : Option Documentation}
    {tokens : List Token} {d : SchemaDoc.Declaration}
    (isDeclaration : CommentedDeclaration documentation tokens d)
    : ∃ last, tokens.getLast? = some last ∧ last.kind = .rightBrace := by
  cases isDeclaration with
  | model isBlock =>
      obtain ⟨-, -, -, -, closes⟩ := isBlock
      exact ⟨_, by simp [List.getLast?_cons], closes⟩
  | enum isBlock =>
      obtain ⟨-, -, -, -, closes⟩ := isBlock
      exact ⟨_, by simp [List.getLast?_cons], closes⟩
  | ignored isIgnored =>
      obtain ⟨-, -, -, -, closes⟩ := isIgnored
      exact ⟨_, by simp [List.getLast?_cons], closes⟩

/-- A declaration does not begin with a comment. -/
theorem CommentedDeclaration.uncons_ne {documentation : Option Documentation}
    {tokens : List Token} {d : SchemaDoc.Declaration}
    (isDeclaration : CommentedDeclaration documentation tokens d)
    : ∃ first back, tokens = first :: back ∧ first.kind ≠ .docComment := by
  obtain ⟨first, back, same, isKeyword⟩ := isDeclaration.uncons
  refine ⟨first, back, same, fun isComment => ?_⟩
  simp [isComment] at isKeyword

end Grammar

namespace Production

open Grammar

-----------------------------------------------------------------------------------------
-- Blocks
-----------------------------------------------------------------------------------------

theorem sound_block {α : Type} (keyword : TokenKind) (named expected : Expectation)
    (member : Member α)
    : Sound (block keyword named expected member.read member.takes)
        (CommentedBlock keyword member) := by
  intro cursor next x h
  obtain ⟨first, _, keywordRead, later⟩ := bind_eq_ok h
  obtain ⟨isKeyword, keywordPassed⟩ := token_eq_ok.mp keywordRead
  obtain ⟨name, _, nameRead, later⟩ := bind_eq_ok later
  obtain ⟨isWord, namePassed⟩ := word_eq_ok.mp nameRead
  obtain ⟨opening, inner, openingRead, later⟩ := bind_eq_ok later
  obtain ⟨opens, openingPassed⟩ := token_eq_ok.mp openingRead
  obtain ⟨trails, _, trailed, later⟩ := bind_eq_ok later
  obtain ⟨entries, stop, run, later⟩ := bind_eq_ok later
  obtain ⟨last, _, lastRead, later⟩ := bind_eq_ok later
  obtain ⟨closes, lastPassed⟩ := token_eq_ok.mp lastRead
  obtain ⟨rfl, rfl⟩ := pure_eq_ok.mp later
  obtain ⟨tokens, entriesPassed, areEntries, -⟩ :=
    entries_of_repeats trailed ((repeated_eq_ok _).mp run)
  have isOpening : inner.previous = opening := openingPassed.previous_of_getLast? rfl
  rw [isOpening] at areEntries
  have inside := entriesPassed.trans lastPassed
  exact ⟨first :: name :: opening :: (tokens ++ [last]),
    keywordPassed.cons (namePassed.cons (openingPassed.cons inside)),
    .mk isKeyword isWord opens areEntries closes⟩

theorem complete_block {α : Type} (keyword : TokenKind) (named expected : Expectation)
    (member : Member α)
    : Complete (block keyword named expected member.read member.takes)
        (CommentedBlock keyword member) [] := by
  intro cursor next tokens x isBlock passes _
  obtain ⟨isKeyword, isWord, opens, areEntries, closes⟩ := isBlock
  obtain ⟨behindKeyword, keywordPassed, passes⟩ := passes.uncons
  obtain ⟨behindName, namePassed, passes⟩ := passes.uncons
  obtain ⟨inner, openingPassed, passes⟩ := passes.uncons
  obtain ⟨stop, entriesPassed, lastPassed⟩ := passes.split
  obtain ⟨-, behindTrail, trailed, run⟩ := @repeats_of_entries _ _ expected _ _ _ areEntries
    _ _ (openingPassed.previous_of_getLast? rfl) entriesPassed
    (lastPassed.kind_eq.trans closes)
  refine bind_eq_ok_iff.mpr
    ⟨_, behindKeyword, token_eq_ok.mpr ⟨isKeyword, keywordPassed⟩, ?_⟩
  refine bind_eq_ok_iff.mpr ⟨_, behindName, word_eq_ok.mpr ⟨isWord, namePassed⟩, ?_⟩
  refine bind_eq_ok_iff.mpr ⟨_, inner, token_eq_ok.mpr ⟨opens, openingPassed⟩, ?_⟩
  refine bind_eq_ok_iff.mpr ⟨_, behindTrail, trailed, ?_⟩
  refine bind_eq_ok_iff.mpr ⟨_, stop, (repeated_eq_ok _).mpr run, ?_⟩
  exact bind_eq_ok_iff.mpr ⟨_, next, token_eq_ok.mpr ⟨closes, lastPassed⟩, rfl⟩

theorem sound_ignoredBlock {keyword : TokenKind}
    (isIgnored : keyword = .datasource ∨ keyword = .generator)
    : Sound (ignoredBlock keyword) fun tokens _ => IgnoredBlock tokens := by
  intro cursor next _ h
  obtain ⟨first, _, keywordRead, later⟩ := bind_eq_ok h
  obtain ⟨rfl, keywordPassed⟩ := token_eq_ok.mp keywordRead
  obtain ⟨name, _, nameRead, later⟩ := bind_eq_ok later
  obtain ⟨isWord, namePassed⟩ := word_eq_ok.mp nameRead
  obtain ⟨tokens, groupPassed, isGroup⟩ := sound_group _ _ later
  exact ⟨first :: name :: tokens, keywordPassed.cons (namePassed.cons groupPassed),
    .mk isIgnored isWord isGroup⟩

theorem complete_ignoredBlock {cursor next : Cursor} {first : Token} {tokens : List Token}
    (isIgnored : IgnoredBlock (first :: tokens)) (passes : cursor.Passes (first :: tokens) next)
    : ignoredBlock first.kind cursor = .ok ((), next) := by
  obtain ⟨_, isWord, isGroup⟩ := isIgnored
  obtain ⟨behindKeyword, keywordPassed, passes⟩ := passes.uncons
  obtain ⟨behindName, namePassed, groupPassed⟩ := passes.uncons
  refine bind_eq_ok_iff.mpr ⟨_, behindKeyword, token_eq_ok.mpr ⟨rfl, keywordPassed⟩, ?_⟩
  refine bind_eq_ok_iff.mpr ⟨_, behindName, word_eq_ok.mpr ⟨isWord, namePassed⟩, ?_⟩
  exact complete_group (by decide) isGroup groupPassed (List.not_mem_nil)

-----------------------------------------------------------------------------------------
-- Declarations
-----------------------------------------------------------------------------------------

/-- Declarations end at the end of the input, behind comments that document nothing. -/
theorem nextDeclaration_none_iff {cursor next : Cursor}
    : nextDeclaration cursor = .ok (none, next)
      ↔ ∃ comments,
          leadingComments cursor = .ok (comments, next) ∧ next.kind = .endOfInput := by
  constructor
  · intro h
    obtain ⟨comments, middle, leads, later⟩ := bind_eq_ok h
    rw [peekKind_bind] at later
    generalize stands : middle.kind = kind at later
    split at later
    next =>
      obtain ⟨-, rfl⟩ := pure_eq_ok.mp later
      exact ⟨comments, leads, stands⟩
    iterate 4
      next =>
        obtain ⟨_, _, _, later⟩ := bind_eq_ok later
        exact absurd (pure_eq_ok.mp later).1 (by simp)
    next => exact absurd later refuse_ne_ok
  · rintro ⟨comments, leads, ends⟩
    refine bind_eq_ok_iff.mpr ⟨comments, next, leads, ?_⟩
    rw [peekKind_bind, ends]
    rfl

section Declared

variable (documentation : Option Documentation)

theorem sound_model
    : Sound (model documentation)
        fun tokens m => CommentedDeclaration documentation tokens (.model m) := by
  intro cursor next m h
  obtain ⟨⟨name, entries, span⟩, _, blockRead, later⟩ := bind_eq_ok h
  obtain ⟨rfl, rfl⟩ := pure_eq_ok.mp later
  obtain ⟨tokens, passes, isBlock⟩ := sound_block _ _ _ fieldMember blockRead
  exact ⟨tokens, passes, .model isBlock⟩

theorem complete_model
    : Complete (model documentation)
        (fun tokens m => CommentedDeclaration documentation tokens (.model m)) [] := by
  intro cursor next tokens m isDeclaration passes ends
  cases isDeclaration with
  | model isBlock =>
      have read := complete_block _ .modelName .fieldOrAttribute fieldMember isBlock passes ends
      exact bind_eq_ok_iff.mpr ⟨_, next, read, rfl⟩

theorem sound_enum
    : Sound (enum documentation)
        fun tokens e => CommentedDeclaration documentation tokens (.enum e) := by
  intro cursor next e h
  obtain ⟨⟨name, entries, span⟩, _, blockRead, later⟩ := bind_eq_ok h
  obtain ⟨rfl, rfl⟩ := pure_eq_ok.mp later
  obtain ⟨tokens, passes, isBlock⟩ := sound_block _ _ _ enumValueMember blockRead
  exact ⟨tokens, passes, .enum isBlock⟩

theorem complete_enum
    : Complete (enum documentation)
        (fun tokens e => CommentedDeclaration documentation tokens (.enum e)) [] := by
  intro cursor next tokens e isDeclaration passes ends
  cases isDeclaration with
  | enum isBlock =>
      have read := complete_block _ .enumName .valueOrAttribute enumValueMember isBlock passes ends
      exact bind_eq_ok_iff.mpr ⟨_, next, read, rfl⟩

variable {documentation}

theorem sound_ignored {keyword : TokenKind}
    (isIgnored : keyword = .datasource ∨ keyword = .generator)
    : Sound (ignoredBlock keyword)
        fun tokens _ => CommentedDeclaration documentation tokens .ignored := by
  intro cursor next _ h
  obtain ⟨tokens, passes, isBlock⟩ := sound_ignoredBlock isIgnored h
  exact ⟨tokens, passes, .ignored isBlock⟩

/-- What is read as a declaration of one kind is derived as a declaration. -/
theorem Sound.declared {α : Type} {p : Production α} {declare : α → Declaration}
    (sound : Sound p fun tokens x => CommentedDeclaration documentation tokens (declare x))
    {cursor next : Cursor} {d : Declaration}
    (h : (p >>= fun x => pure (some (declare x))) cursor = .ok (some d, next))
    : ∃ tokens, cursor.Passes tokens next ∧ CommentedDeclaration documentation tokens d := by
  obtain ⟨x, _, read, later⟩ := bind_eq_ok h
  obtain ⟨same, rfl⟩ := pure_eq_ok.mp later
  obtain rfl := Option.some.inj same
  exact sound read

end Declared

/-- A declaration that is read stands behind the comments that document it. -/
theorem declaration_of_nextDeclaration {cursor next : Cursor} {d : Declaration}
    (h : nextDeclaration cursor = .ok (some d, next))
    : ∃ comments start tokens,
        leadingComments cursor = .ok (comments, start)
        ∧ start.Passes tokens next
        ∧ CommentedDeclaration (Documentation.ofTokens? comments) tokens d := by
  obtain ⟨comments, start, leads, later⟩ := bind_eq_ok h
  refine ⟨comments, start, ?_⟩
  rw [peekKind_bind] at later
  have declared
      : ∃ tokens,
          start.Passes tokens next
          ∧ CommentedDeclaration (Documentation.ofTokens? comments) tokens d := by
    generalize start.kind = kind at later
    split at later
    next => exact absurd (pure_eq_ok.mp later).1 (by simp)
    next => exact (sound_model _).declared later
    next => exact (sound_enum _).declared later
    next => exact (sound_ignored (Or.inl rfl)).declared later
    next => exact (sound_ignored (Or.inr rfl)).declared later
    next => exact absurd later refuse_ne_ok
  obtain ⟨tokens, passes, isDeclaration⟩ := declared
  exact ⟨tokens, leads, passes, isDeclaration⟩

/-- A declaration is read, whatever follows it. -/
theorem nextDeclaration_of_declaration {cursor start next : Cursor}
    {comments tokens : List Token} {d : Declaration}
    (leads : leadingComments cursor = .ok (comments, start))
    (passes : start.Passes tokens next)
    (isDeclaration : CommentedDeclaration (Documentation.ofTokens? comments) tokens d)
    : nextDeclaration cursor = .ok (some d, next) := by
  refine bind_eq_ok_iff.mpr ⟨comments, start, leads, ?_⟩
  rw [peekKind_bind]
  cases isDeclaration with
  | model isBlock =>
      have read := complete_model (Documentation.ofTokens? comments) (.model isBlock) passes
        List.not_mem_nil
      obtain ⟨isKeyword, _⟩ := isBlock
      rw [passes.kind_eq, isKeyword]
      exact bind_eq_ok_iff.mpr ⟨_, next, read, rfl⟩
  | enum isBlock =>
      have read := complete_enum (Documentation.ofTokens? comments) (.enum isBlock) passes
        List.not_mem_nil
      obtain ⟨isKeyword, _⟩ := isBlock
      rw [passes.kind_eq, isKeyword]
      exact bind_eq_ok_iff.mpr ⟨_, next, read, rfl⟩
  | ignored isIgnored =>
      obtain ⟨isKeyword, isWord, isGroup⟩ := isIgnored
      have read := complete_ignoredBlock (.mk isKeyword isWord isGroup) passes
      rw [passes.kind_eq]
      rcases isKeyword with isKeyword | isKeyword <;> rw [isKeyword] at read ⊢ <;>
        exact bind_eq_ok_iff.mpr ⟨(), next, read, rfl⟩

/-- Declarations are read exactly as they are derived, up to the end of the input. -/
theorem declarations_eq_ok {cursor next : Cursor} {ds : List Declaration}
    : declarations cursor = .ok (ds, next)
      ↔ ∃ tokens,
          cursor.Passes tokens next
          ∧ next.kind = .endOfInput
          ∧ CommentedDeclarations tokens ds := by
  rw [declarations, repeated_eq_ok]
  constructor
  · intro run
    induction run with
    | stop last =>
        obtain ⟨comments, leads, ends⟩ := nextDeclaration_none_iff.mp last
        obtain ⟨passes, areComments, -⟩ := leadingComments_eq_ok.mp leads
        exact ⟨comments, passes, ends, .done areComments⟩
    | step head _ ih =>
        obtain ⟨comments, start, tokens, leads, passes, isDeclaration⟩ :=
          declaration_of_nextDeclaration head
        obtain ⟨commentsPassed, areComments, -⟩ := leadingComments_eq_ok.mp leads
        obtain ⟨rest, restPassed, ends, areDeclarations⟩ := ih
        exact ⟨comments ++ (tokens ++ rest), commentsPassed.trans (passes.trans restPassed),
          ends, .declaration areComments isDeclaration areDeclarations⟩
  · rintro ⟨tokens, passes, ends, areDeclarations⟩
    induction areDeclarations generalizing cursor with
    | done areComments =>
        have leads := leadingComments_eq_ok.mpr ⟨passes, areComments, by simp [ends]⟩
        exact .stop (nextDeclaration_none_iff.mpr ⟨_, leads, ends⟩)
    | declaration areComments isDeclaration _ ih =>
        obtain ⟨start, commentsPassed, passes⟩ := passes.split
        obtain ⟨stop, declarationPassed, restPassed⟩ := passes.split
        have notComment : start.kind ≠ .docComment := by
          obtain ⟨first, back, rfl, notComment⟩ := isDeclaration.uncons_ne
          rwa [declarationPassed.kind_eq]
        have leads := leadingComments_eq_ok.mpr ⟨commentsPassed, areComments, notComment⟩
        exact .step (nextDeclaration_of_declaration leads declarationPassed isDeclaration)
          (ih restPassed)

end Production

end SchemaDoc
