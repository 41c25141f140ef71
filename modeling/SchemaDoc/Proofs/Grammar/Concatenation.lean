import SchemaDoc.Proofs.Grammar.Declarations

/-! Derivations of declarations one behind the other.
A reader takes the first declaration without regard to what follows it, so two derivations of a
list agree on it. What a list without comments at its end derives is then a part of what every
longer list derives.
-/

namespace SchemaDoc.Grammar

open Production (nextDeclaration nextDeclaration_of_declaration leadingComments_eq_ok)

/-- A declaration behind its comments is read from any list that begins with them. -/
theorem CommentedDeclaration.read {comments tokens : List Token} {d : SchemaDoc.Declaration}
    (areComments : ∀ c ∈ comments, c.kind = .docComment)
    (isDeclaration : CommentedDeclaration (Documentation.ofTokens? comments) tokens d)
    (previous : Token) (rest : List Token)
    : ∃ last,
        nextDeclaration ⟨previous, comments ++ (tokens ++ rest)⟩ = .ok (some d, ⟨last, rest⟩) := by
  let start : Cursor := ⟨comments.getLast?.getD previous, tokens ++ rest⟩
  have commentsPassed : Cursor.Passes ⟨previous, comments ++ (tokens ++ rest)⟩ comments start :=
    ⟨rfl, rfl⟩
  have passes : start.Passes tokens ⟨tokens.getLast?.getD start.previous, rest⟩ := ⟨rfl, rfl⟩
  have notComment : start.kind ≠ .docComment := by
    obtain ⟨first, back, rfl, notComment⟩ := isDeclaration.uncons_ne
    rwa [passes.kind_eq]
  have leads := leadingComments_eq_ok.mpr ⟨commentsPassed, areComments, notComment⟩
  exact ⟨_, nextDeclaration_of_declaration leads passes isDeclaration⟩

/-- Two derivations of one list agree on its first declaration and on where it ends. -/
theorem CommentedDeclaration.front_unique {comments comments' tokens tokens' : List Token}
    {rest rest' : List Token} {d d' : SchemaDoc.Declaration}
    (areComments : ∀ c ∈ comments, c.kind = .docComment)
    (isDeclaration : CommentedDeclaration (Documentation.ofTokens? comments) tokens d)
    (areComments' : ∀ c ∈ comments', c.kind = .docComment)
    (isDeclaration' : CommentedDeclaration (Documentation.ofTokens? comments') tokens' d')
    (same : comments ++ (tokens ++ rest) = comments' ++ (tokens' ++ rest'))
    : d = d' ∧ rest = rest' := by
  obtain ⟨last, read⟩ := isDeclaration.read areComments default rest
  obtain ⟨last', read'⟩ := isDeclaration'.read areComments' default rest'
  rw [same, read'] at read
  obtain ⟨sameDeclaration, sameCursor⟩ := Prod.mk.inj (Except.ok.inj read)
  exact ⟨(Option.some.inj sameDeclaration).symm, (congrArg Cursor.rest sameCursor).symm⟩

namespace CommentedDeclarations

/-- Declarations may stand one behind the other, if there is no comment at the end of the
front.
-/
theorem append {front back : List Token} {ds₁ ds₂ : List SchemaDoc.Declaration}
    (areFront : CommentedDeclarations front ds₁) (ends : EndsInNoComment front)
    (areBack : CommentedDeclarations back ds₂)
    : CommentedDeclarations (front ++ back) (ds₁ ++ ds₂) := by
  induction areFront with
  | done areComments =>
      obtain rfl := ends.eq_nil areComments
      exact areBack
  | declaration areComments isDeclaration _ ih =>
      have whole := CommentedDeclarations.declaration areComments isDeclaration
        (ih ends.of_append.of_append)
      simpa only [List.append_assoc, List.cons_append] using whole

/-- What the front of a list derives is the front of what the list derives. -/
theorem split_behind {front back : List Token} {ds₁ ds : List SchemaDoc.Declaration}
    (areFront : CommentedDeclarations front ds₁) (ends : EndsInNoComment front)
    (areDeclarations : CommentedDeclarations (front ++ back) ds)
    : ∃ ds₂, ds = ds₁ ++ ds₂ ∧ CommentedDeclarations back ds₂ := by
  induction areFront generalizing ds with
  | done areComments =>
      obtain rfl := ends.eq_nil areComments
      exact ⟨ds, rfl, areDeclarations⟩
  | @declaration comments tokens rest d ds₁ areComments isDeclaration _ ih =>
      generalize whole : comments ++ (tokens ++ rest) ++ back = all at areDeclarations
      cases areDeclarations with
      | done areComments' =>
          obtain ⟨first, more, rfl, notComment⟩ := isDeclaration.uncons_ne
          exact absurd (areComments' first (by simp [← whole])) notComment
      | declaration areComments' isDeclaration' behind =>
          rw [List.append_assoc, List.append_assoc] at whole
          obtain ⟨rfl, rfl⟩ :=
            CommentedDeclaration.front_unique areComments isDeclaration areComments'
              isDeclaration' whole
          obtain ⟨ds₂, rfl, areBack⟩ := ih ends.of_append.of_append behind
          exact ⟨ds₂, rfl, areBack⟩

end CommentedDeclarations

end SchemaDoc.Grammar
