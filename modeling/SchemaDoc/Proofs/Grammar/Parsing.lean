import Mathlib.Data.List.TakeWhile
import SchemaDoc.Proofs.Grammar.Declarations
import SchemaDoc.Proofs.Token.Scanning

/-! A token list is read as a schema exactly when it is derivable, and then as what is derived.
Lists without documentation comments are the ones that the plain grammar speaks of.
-/

namespace SchemaDoc

-----------------------------------------------------------------------------------------
-- Derivations without comments
-----------------------------------------------------------------------------------------

namespace Grammar

open Production (Member)

variable {α : Type} {member : Member α}

/-- Comments among tokens that are none are no tokens at all. -/
theorem eq_nil_of_areComments {comments rest : List Token}
    (areComments : ∀ c ∈ comments, c.kind = .docComment)
    (noComment : ∀ token ∈ comments ++ rest, token.kind ≠ .docComment)
    : comments = [] := by
  cases comments with
  | nil => rfl
  | cons c comments =>
      have isComment := areComments c List.mem_cons_self
      exact absurd isComment (noComment c (by simp))

theorem trailing?_eq_none_of_noComment {previous : Token} {tokens : List Token}
    (noComment : ∀ token ∈ tokens, token.kind ≠ .docComment)
    : trailing? previous tokens = none :=
  trailing?_eq_none fun token isHead => noComment token (List.mem_of_mem_head? isHead)

theorem commentedEntry_none_iff {tokens : List Token} {entry : SchemaDoc.Entry α}
    : CommentedEntry member none tokens entry ↔ Entry member.Derives tokens entry := by
  constructor
  · intro isEntry
    cases isEntry with
    | member isMember =>
        rw [member.undocumented isMember]
        exact .member isMember
    | marked isAttribute => exact .marked isAttribute
  · intro isEntry
    cases isEntry with
    | member isMember =>
        have isEntry : CommentedEntry member none _ (.member _) := .member isMember
        rwa [member.undocumented isMember] at isEntry
    | marked isAttribute => exact .marked isAttribute

theorem commentedEntries_iff {previous : Token} {tokens : List Token}
    {entries : List (SchemaDoc.Entry α)}
    (noComment : ∀ token ∈ tokens, token.kind ≠ .docComment)
    : CommentedEntries member previous tokens entries
      ↔ Sequence (Entry member.Derives) tokens entries := by
  constructor
  · intro areEntries
    induction areEntries with
    | @done _ comments areComments =>
        obtain rfl := @eq_nil_of_areComments comments [] areComments (by simpa using noComment)
        exact .nil
    | entry areComments isEntry _ _ ih =>
        obtain rfl := eq_nil_of_areComments areComments noComment
        have noComment' := fun token member => noComment token (List.mem_append_right _ member)
        have noneBehind := fun token member =>
          noComment' token (List.mem_append_right _ member)
        rw [trailing?_eq_none_of_noComment noneBehind] at isEntry
        rw [List.nil_append]
        exact .cons (commentedEntry_none_iff.mp isEntry) (ih noneBehind)
  · intro areEntries
    induction areEntries generalizing previous with
    | nil => exact .done (by simp)
    | @cons tokens rest x xs isEntry _ ih =>
        have noneBehind := fun token member => noComment token (List.mem_append_right _ member)
        have isCommented := commentedEntry_none_iff.mpr isEntry
        obtain ⟨last, isLast⟩ : ∃ last, tokens.getLast? = some last := by
          obtain ⟨first, back, rfl, -⟩ := isCommented.uncons
          exact ⟨_, List.getLast?_eq_some_getLast (List.cons_ne_nil first back)⟩
        have noneTrails := @trailing?_eq_none_of_noComment last _ noneBehind
        exact @CommentedEntries.entry _ _ previous [] _ _ _ _ _ (by simp)
          (by rw [noneTrails]; exact isCommented) isLast (ih noneBehind)

theorem commentedBlock_iff {keyword : TokenKind} {tokens : List Token}
    {x : Ident × List (SchemaDoc.Entry α) × Span}
    (noComment : ∀ token ∈ tokens, token.kind ≠ .docComment)
    : CommentedBlock keyword member tokens x ↔ Block keyword member.Derives tokens x := by
  constructor
  · rintro @⟨_, _, _, inner, _, _, isKeyword, isWord, opens, areEntries, closes⟩
    have within (token : Token) (isInner : token ∈ inner) : token.kind ≠ .docComment :=
      noComment token (by simp [isInner])
    exact .mk isKeyword isWord opens ((commentedEntries_iff within).mp areEntries) closes
  · rintro @⟨_, _, _, inner, _, _, isKeyword, isWord, opens, areEntries, closes⟩
    have within (token : Token) (isInner : token ∈ inner) : token.kind ≠ .docComment :=
      noComment token (by simp [isInner])
    exact .mk isKeyword isWord opens ((commentedEntries_iff within).mpr areEntries) closes

theorem commentedDeclaration_none_iff {tokens : List Token} {d : SchemaDoc.Declaration}
    (noComment : ∀ token ∈ tokens, token.kind ≠ .docComment)
    : CommentedDeclaration none tokens d ↔ Declaration tokens d := by
  constructor
  · intro isDeclaration
    cases isDeclaration with
    | model isBlock => exact .model (.mk ((commentedBlock_iff noComment).mp isBlock))
    | enum isBlock => exact .enum (.mk ((commentedBlock_iff noComment).mp isBlock))
    | ignored isIgnored => exact .ignored isIgnored
  · intro isDeclaration
    cases isDeclaration with
    | model isModel =>
        obtain ⟨isBlock⟩ := isModel
        exact .model ((commentedBlock_iff noComment).mpr isBlock)
    | enum isEnum =>
        obtain ⟨isBlock⟩ := isEnum
        exact .enum ((commentedBlock_iff noComment).mpr isBlock)
    | ignored isIgnored => exact .ignored isIgnored

theorem commentedDeclarations_iff {tokens : List Token} {ds : List SchemaDoc.Declaration}
    (noComment : ∀ token ∈ tokens, token.kind ≠ .docComment)
    : CommentedDeclarations tokens ds ↔ Sequence Declaration tokens ds := by
  constructor
  · intro areDeclarations
    induction areDeclarations with
    | @done comments areComments =>
        obtain rfl := @eq_nil_of_areComments comments [] areComments (by simpa using noComment)
        exact .nil
    | declaration areComments isDeclaration _ ih =>
        obtain rfl := eq_nil_of_areComments areComments noComment
        have noComment' := fun token member => noComment token (List.mem_append_right _ member)
        have within := fun token member => noComment' token (List.mem_append_left _ member)
        have behind := fun token member => noComment' token (List.mem_append_right _ member)
        rw [List.nil_append]
        exact .cons ((commentedDeclaration_none_iff within).mp isDeclaration) (ih behind)
  · intro areDeclarations
    induction areDeclarations with
    | nil => exact .done (by simp)
    | cons isDeclaration _ ih =>
        have within := fun token member => noComment token (List.mem_append_left _ member)
        have behind := fun token member => noComment token (List.mem_append_right _ member)
        have isCommented := (commentedDeclaration_none_iff within).mpr isDeclaration
        exact @CommentedDeclarations.declaration [] _ _ _ _ (by simp) isCommented (ih behind)

end Grammar

-----------------------------------------------------------------------------------------
-- Token lists
-----------------------------------------------------------------------------------------

open Grammar

theorem Token.notEnd_of_mem_beforeEnd {tokens : List Token} {token : Token}
    (isMember : token ∈ Token.beforeEnd tokens)
    : token.kind ≠ .endOfInput := by
  have holds := List.all_eq_true.mp List.all_takeWhile token isMember
  simpa using holds

/-- A token that the grammar speaks of. -/
def Token.IsProper (token : Token) : Prop := token.isTrivia = false ∧ token.kind ≠ .endOfInput

theorem Token.isProper_of_mem_beforeEnd {tokens : List Token} {token : Token}
    (isMember : token ∈ Token.beforeEnd tokens)
    : token.IsProper := by
  refine ⟨?_, Token.notEnd_of_mem_beforeEnd isMember⟩
  have kept := (List.takeWhile_sublist _).mem isMember
  simpa using (List.mem_filter.mp kept).2

theorem Token.beforeEnd_of_proper {tokens : List Token}
    (areProper : ∀ token ∈ tokens, token.IsProper)
    : Token.beforeEnd tokens = tokens := by
  have kept : Token.significant tokens = tokens :=
    List.filter_eq_self.mpr fun token isMember => by simp [(areProper token isMember).1]
  rw [Token.beforeEnd, kept, List.takeWhile_eq_self_iff]
  intro token isMember
  simpa using (areProper token isMember).2

/-- A token list is read as what the declarations in front of its end make up. -/
theorem Schema.ofTokens_eq_ok {tokens : List Token} {size : Nat} {schema : Schema}
    : Schema.ofTokens tokens size = .ok schema
      ↔ ∃ ds,
          CommentedDeclarations (Token.beforeEnd tokens) ds
          ∧ schema = Schema.ofDeclarations ds := by
  constructor
  · intro h
    simp only [Schema.ofTokens] at h
    split at h
    next ds next read =>
      obtain rfl := Except.ok.inj h
      obtain ⟨passed, passes, ends, areDeclarations⟩ := Production.declarations_eq_ok.mp read
      have all : next.rest = [] := by
        cases found : next.rest with
        | nil => rfl
        | cons token rest =>
            have isMember : token ∈ Token.beforeEnd tokens := by
              have split : Token.beforeEnd tokens = passed ++ next.rest := passes.rest
              simp [split, found]
            simp only [Cursor.kind, found, List.head?_cons, Option.elim_some] at ends
            exact absurd ends (Token.notEnd_of_mem_beforeEnd isMember)
      have same : Token.beforeEnd tokens = passed := by simpa [all] using passes.rest
      exact ⟨ds, same ▸ areDeclarations, rfl⟩
    next => simp at h
  · rintro ⟨ds, areDeclarations, rfl⟩
    have read := Production.declarations_eq_ok.mpr
      ⟨Token.beforeEnd tokens,
        (⟨by simp, rfl⟩ : Cursor.Passes ⟨Token.firstEnd tokens size, Token.beforeEnd tokens⟩
          (Token.beforeEnd tokens) ⟨_, []⟩),
        rfl, areDeclarations⟩
    simp only [Schema.ofTokens, read]

/-- A text is read as what the declarations in front of its end make up. -/
theorem Schema.ofText_eq_ok {text : String} {schema : Schema}
    : Schema.ofText false text = .ok schema
      ↔ ∃ ds,
          CommentedDeclarations (Token.beforeEnd (tokenize text)) ds
          ∧ schema = Schema.ofDeclarations ds := by
  rw [← @Schema.ofTokens_eq_ok _ text.utf8ByteSize]
  change (Schema.ofTokens (tokenize text) text.utf8ByteSize).mapError SourceError.malformed = _
    ↔ _
  cases Schema.ofTokens (tokenize text) text.utf8ByteSize with
  | error error => exact ⟨nofun, nofun⟩
  | ok read =>
      exact ⟨fun same => congrArg Except.ok (Except.ok.inj same),
        fun same => congrArg Except.ok (Except.ok.inj same)⟩

/-- An end of the input is significant. -/
theorem Token.significant_append_cons {front rest : List Token} {ending : Token}
    (ends : ending.kind = .endOfInput)
    : significant (front ++ ending :: rest) = significant front ++ ending :: significant rest := by
  have notTrivia : ending.isTrivia = false := by
    rw [Token.isTrivia, ends]
    rfl
  simp [significant, notTrivia]

theorem Token.beforeEnd_of_noEnd {front : List Token}
    (noEnd : ∀ token ∈ front, token.kind ≠ .endOfInput)
    : beforeEnd front = significant front := by
  rw [beforeEnd, List.takeWhile_eq_self_iff]
  intro token isMember
  simpa using noEnd token (List.mem_filter.mp isMember).1

/-- In front of the first end of the input stands what is significant there. -/
theorem Token.beforeEnd_append_cons {front rest : List Token} {ending : Token}
    (ends : ending.kind = .endOfInput) (noEnd : ∀ token ∈ front, token.kind ≠ .endOfInput)
    : beforeEnd (front ++ ending :: rest) = significant front := by
  rw [beforeEnd, significant_append_cons ends, takeWhile_append_cons (by simp [ends]),
    ← beforeEnd, beforeEnd_of_noEnd noEnd]

theorem Token.beforeEnd_append {front : List Token} {ending : Token}
    (ends : ending.kind = .endOfInput) (onlyEnd : ∀ token ∈ front, token.kind ≠ .endOfInput)
    : Token.beforeEnd (front ++ [ending]) = Token.significant front :=
  beforeEnd_append_cons ends onlyEnd

/-- The tokens of a text in front of its end, and what of them is significant. -/
theorem Token.tokenize_split (text : String)
    : ∃ front,
        tokenize text = front ++ [.ending (.after .start text.toList)]
        ∧ (∀ token ∈ front, token.kind ≠ .endOfInput)
        ∧ Token.beforeEnd (tokenize text) = Token.significant front := by
  obtain ⟨front, split, proper⟩ := (scans_tokenize text).ending_eq
  have notEnd : ∀ token ∈ front, token.kind ≠ .endOfInput := fun token isMember =>
    (proper token isMember).1
  exact ⟨front, split, notEnd, split ▸ Token.beforeEnd_append rfl notEnd⟩

/-- The significant tokens of a text end in the end of the input, behind proper ones. -/
theorem Token.significant_tokenize (text : String)
    : ∃ ending,
        Token.significant (tokenize text) = Token.beforeEnd (tokenize text) ++ [ending]
        ∧ ending.kind = .endOfInput
        ∧ ∀ token ∈ Token.beforeEnd (tokenize text),
            token.IsProper ∧ token.span.start < token.span.stop := by
  obtain ⟨front, split, proper⟩ := (scans_tokenize text).ending_eq
  have isFront : Token.beforeEnd (tokenize text) = Token.significant front :=
    split ▸ Token.beforeEnd_append rfl fun token isMember => (proper token isMember).1
  rw [isFront]
  refine ⟨.ending (.after .start text.toList), ?_, rfl, fun token isMember => ?_⟩
  · rw [split, Token.significant, List.filter_append]
    rfl
  · obtain ⟨isMember, notTrivia⟩ := List.mem_filter.mp isMember
    obtain ⟨notEnd, longer⟩ := proper token isMember
    exact ⟨⟨by simpa using notTrivia, notEnd⟩, longer⟩

/-- Parsing is sound, complete and unambiguous: without documentation comments, a token list
that ends in its only end of the input is read exactly when what is significant in front of the
end is derivable, as the one schema that is derived.
-/
theorem Schema.ofTokens_iff_derivable (front : List Token) (ending : Token) (size : Nat)
    (ends : ending.kind = .endOfInput) (onlyEnd : ∀ token ∈ front, token.kind ≠ .endOfInput)
    (noComment : ∀ token ∈ front, token.kind ≠ .docComment)
    : (∀ schema,
        Schema.ofTokens (front ++ [ending]) size = .ok schema
          ↔ Grammar.Schema (Token.significant front) schema)
      ∧ ∀ schema schema',
          Grammar.Schema (Token.significant front) schema
          → Grammar.Schema (Token.significant front) schema'
          → schema = schema' := by
  have same := Token.beforeEnd_append ends onlyEnd
  have plain : ∀ token ∈ Token.significant front, token.kind ≠ .docComment :=
    fun token isMember => noComment token (List.mem_filter.mp isMember).1
  have exactly (schema : Schema)
      : Schema.ofTokens (front ++ [ending]) size = .ok schema
        ↔ Grammar.Schema (Token.significant front) schema := by
    rw [Schema.ofTokens_eq_ok, same]
    constructor
    · rintro ⟨ds, areDeclarations, rfl⟩
      exact .mk ((commentedDeclarations_iff plain).mp areDeclarations)
    · rintro ⟨areDeclarations⟩
      exact ⟨_, (commentedDeclarations_iff plain).mpr areDeclarations, rfl⟩
  refine ⟨exactly, fun schema schema' derived derived' => ?_⟩
  have read := (exactly schema).mpr derived
  have read' := (exactly schema').mpr derived'
  exact Except.ok.inj (read.symm.trans read')

/-- A text with a model, an enum and a block that is passed over is derivable. -/
theorem Schema.derivable_of_ofTokens_models
    : let text :=
        "model Post { id Int @id kind Kind? }\nenum Kind { draft }\ngenerator g { a [1] }"
      ∃ schema,
        Grammar.Schema (Token.significant (tokenize text).dropLast) schema
        ∧ schema.models.map (fun m => m.fields.map (·.name.name)) = [["id", "kind"]]
        ∧ schema.enums.map (·.name.name) = ["Kind"] := by
  intro text
  let ending : Token := ⟨.endOfInput, "", 3, 22, ⟨78, 78⟩⟩
  have split : tokenize text = (tokenize text).dropLast ++ [ending] := by decide +kernel
  have iff := (Schema.ofTokens_iff_derivable (tokenize text).dropLast ending 78 rfl
    (by decide +kernel) (by decide +kernel)).1
  rw [← split] at iff
  have reads : ((Schema.ofTokens (tokenize text) 78).toOption.map fun schema =>
      (schema.models.map (fun m => m.fields.map (·.name.name)),
        schema.enums.map (·.name.name))) = some ([["id", "kind"]], ["Kind"]) := by
    decide +kernel
  cases found : Schema.ofTokens (tokenize text) 78 with
  | ok schema =>
      simp only [found, Except.toOption, Option.map_some, Option.some.injEq,
        Prod.mk.injEq] at reads
      exact ⟨schema, (iff schema).mp found, reads.1, reads.2⟩
  | error => simp [found, Except.toOption] at reads

end SchemaDoc
