import SchemaDoc.Proofs.Grammar.Trailing

/-! A trailing comment among declarations.
Either it is inside a declaration, where a change of its text shows nowhere behind it, or it
stands between two declarations and begins the run of comments in front of the second one.
-/

namespace SchemaDoc.Grammar

open Production (Member)

variable {comment previous : Token} {front back : List Token} {place : Nat}

-----------------------------------------------------------------------------------------
-- Blocks and declarations
-----------------------------------------------------------------------------------------

/-- A change of a trailing comment in a block changes nothing behind it. -/
theorem CommentedBlock.retexted {α : Type} {member : Member α} (view : View member)
    {keyword : TokenKind} {tokens : List Token} {name : Ident}
    {entries : List (SchemaDoc.Entry α)} {span : Span}
    (isBlock : CommentedBlock keyword member tokens (name, entries, span))
    (notComment : keyword ≠ .docComment) (text : String)
    (trails : Trails previous front comment back place) (split : tokens = front ++ comment :: back)
    : ∃ entries',
        CommentedBlock keyword member (front ++ { comment with text } :: back)
          (name, entries', span)
        ∧ view.behind place entries' = view.behind place entries
        ∧ span.start < place := by
  obtain @⟨first, word, opening, inner, last, entries, isKeyword, isWord, opens, areEntries,
    closes⟩ := isBlock
  have isComment := trails.isComment
  have split' : [first, word, opening] ++ (inner ++ [last]) = front ++ comment :: back := split
  rcases split_of_append_eq split' with ⟨more, same, -⟩ | ⟨front', rfl, split''⟩
  · have isMember : comment ∈ [first, word, opening] := by simp [same]
    simp only [List.mem_cons, List.not_mem_nil, or_false] at isMember
    rcases isMember with rfl | rfl | rfl
    · exact absurd (isKeyword.symm.trans isComment) notComment
    · exact absurd isComment (Token.kind_ne_of_isWord isWord rfl)
    · simp [opens] at isComment
  rcases split_of_append_eq split'' with ⟨more, rfl, rfl⟩ | ⟨more, -, same⟩
  · have narrowed : Trails opening front' comment more place := trails.narrow
    obtain ⟨entries', areEntries', same⟩ := areEntries.retexted text narrowed rfl
    refine ⟨entries', ?_, same, ?_⟩
    · have isBlock' := CommentedBlock.mk isKeyword isWord opens areEntries' closes
      simpa only [List.append_assoc, List.cons_append, List.nil_append] using isBlock'
    · have before := trails.inFront first (by simp)
      exact Nat.lt_of_le_of_lt (Nat.min_le_left _ _) before
  · have isMember : comment ∈ [last] := by simp [same]
    obtain rfl := List.mem_singleton.mp isMember
    simp [closes] at isComment

/-- Two declarations of a kind with the same documentation behind an offset. -/
inductive SameBehind (place : Nat) : SchemaDoc.Declaration → SchemaDoc.Declaration → Prop
  | model {m m' : SchemaDoc.Model}
    (same : Documented.behind place m'.documented = Documented.behind place m.documented)
    : SameBehind place (.model m) (.model m')
  | enum {e e' : SchemaDoc.Enum}
    (same : Documented.behind place e'.documented = Documented.behind place e.documented)
    : SameBehind place (.enum e) (.enum e')
  | ignored : SameBehind place .ignored .ignored

theorem SameBehind.refl (d : SchemaDoc.Declaration) : SameBehind place d d := by
  cases d with
  | model => exact .model rfl
  | enum => exact .enum rfl
  | ignored => exact .ignored

theorem Documented.behind_cons_of_lt {start : Nat} (before : start < place)
    (documentation : Option Documentation) (documented : List Documented)
    : Documented.behind place (⟨start, documentation⟩ :: documented)
      = Documented.behind place documented := by
  rw [Documented.behind, List.filter_cons, if_neg (by simpa using before)]
  rfl

/-- A change of a trailing comment in a declaration changes nothing behind it. -/
theorem CommentedDeclaration.retexted {documentation : Option Documentation}
    {tokens : List Token} {d : SchemaDoc.Declaration}
    (isDeclaration : CommentedDeclaration documentation tokens d) (text : String)
    (trails : Trails previous front comment back place) (split : tokens = front ++ comment :: back)
    : ∃ d',
        CommentedDeclaration documentation (front ++ { comment with text } :: back) d'
        ∧ SameBehind place d d' := by
  cases isDeclaration with
  | model isBlock =>
      obtain ⟨entries', isBlock', same, before⟩ :=
        isBlock.retexted fieldView (by decide) text trails split
      refine ⟨_, .model isBlock', .model ?_⟩
      rw [Model.documented, Model.documented, Documented.behind_cons_of_lt before,
        Documented.behind_cons_of_lt before]
      exact same
  | enum isBlock =>
      obtain ⟨entries', isBlock', same, before⟩ :=
        isBlock.retexted enumValueView (by decide) text trails split
      refine ⟨_, .enum isBlock', .enum ?_⟩
      rw [Enum.documented, Enum.documented, Documented.behind_cons_of_lt before,
        Documented.behind_cons_of_lt before]
      exact same
  | ignored isIgnored =>
      have isIgnored' := isIgnored.map (retexts_retext trails.isComment text)
      rw [split, map_retext trails.notFront trails.notBack] at isIgnored'
      exact ⟨_, .ignored isIgnored', .ignored⟩

-----------------------------------------------------------------------------------------
-- Runs of declarations
-----------------------------------------------------------------------------------------

/-- A trailing comment stands between two declarations, or its change changes nothing behind
it.
-/
theorem CommentedDeclarations.retexted {tokens : List Token}
    {ds : List SchemaDoc.Declaration} (areDeclarations : CommentedDeclarations tokens ds)
    (text : String) (trails : Trails previous front comment back place)
    (split : tokens = front ++ comment :: back)
    : (∃ ds₁, CommentedDeclarations front ds₁)
      ∨ ∃ ds',
          CommentedDeclarations (front ++ { comment with text } :: back) ds'
          ∧ List.Forall₂ (SameBehind place) ds ds' := by
  induction areDeclarations generalizing previous front with
  | done areComments =>
      obtain rfl := trails.frontEnds.eq_nil fun c isMember =>
        areComments c (split ▸ List.mem_append_left _ isMember)
      exact Or.inl ⟨[], .done (by simp)⟩
  | @declaration comments tokens rest d ds areComments isDeclaration behind ih =>
      rcases split_of_append_eq split with ⟨more, rfl, -⟩ | ⟨front', rfl, split'⟩
      · obtain rfl := trails.frontEnds.eq_nil fun c isMember =>
          areComments c (List.mem_append_left _ isMember)
        exact Or.inl ⟨[], .done (by simp)⟩
      rcases split_of_append_eq split' with ⟨more, rfl, rfl⟩ | ⟨front'', rfl, split''⟩
      · obtain ⟨d', isDeclaration', same⟩ := isDeclaration.retexted text trails.narrow rfl
        refine Or.inr ⟨d' :: ds, ?_, .cons same (List.forall₂_same.mpr fun _ _ => .refl _)⟩
        have whole := CommentedDeclarations.declaration areComments isDeclaration' behind
        simpa only [List.append_assoc, List.cons_append] using whole
      · obtain ⟨last, isLast⟩ : ∃ last, tokens.getLast? = some last := by
          obtain ⟨first, more, rfl, -⟩ := isDeclaration.uncons
          exact ⟨_, List.getLast?_eq_some_getLast (List.cons_ne_nil first more)⟩
        have narrowed : Trails last front'' comment back place := by
          rw [← List.append_assoc] at trails
          exact trails.narrow_behind (by rw [List.getLast?_append, isLast, Option.some_or])
        rcases ih narrowed split'' with ⟨ds₁, before⟩ | ⟨ds', areDeclarations', same⟩
        · exact Or.inl ⟨d :: ds₁, .declaration areComments isDeclaration before⟩
        · refine Or.inr ⟨d :: ds', ?_, .cons (.refl d) same⟩
          have whole := CommentedDeclarations.declaration areComments isDeclaration areDeclarations'
          simpa only [List.append_assoc] using whole

end SchemaDoc.Grammar
