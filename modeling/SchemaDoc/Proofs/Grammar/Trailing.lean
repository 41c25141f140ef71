import SchemaDoc.Proofs.Grammar.Parsing
import SchemaDoc.Proofs.Grammar.Retexting
import SchemaDoc.Proofs.Lists

/-! What the text of a trailing comment can change in a derivation.
The comment stands on the line of the token in front of it. Every run of comments that it could
be the first of is split there, so a change of its text shows in front of it only, unless the
token in front of it ends a declaration.
-/

namespace SchemaDoc

-----------------------------------------------------------------------------------------
-- What can be documented
-----------------------------------------------------------------------------------------

/-- Something that can be documented: where it begins, and what documents it. -/
structure Documented where
  start : Nat
  documentation : Option Documentation
  deriving DecidableEq, Repr

/-- What begins at an offset or behind it. -/
def Documented.behind (place : Nat) (documented : List Documented) : List Documented :=
  documented.filter fun x => place ≤ x.start

def Field.toDocumented (field : Field) : Documented := ⟨field.span.start, field.documentation⟩

def EnumValue.toDocumented (value : EnumValue) : Documented :=
  ⟨value.span.start, value.documentation⟩

/-- A model and its fields. -/
def Model.documented (model : Model) : List Documented :=
  ⟨model.span.start, model.documentation⟩ :: model.fields.map Field.toDocumented

/-- An enum and its values. -/
def Enum.documented (enum : Enum) : List Documented :=
  ⟨enum.span.start, enum.documentation⟩ :: enum.values.map EnumValue.toDocumented

/-- Every model, field, enum and enum value of a schema. -/
def Schema.documented (schema : Schema) : List Documented :=
  schema.models.flatMap Model.documented ++ schema.enums.flatMap Enum.documented

namespace Grammar

open Production (Member)

-----------------------------------------------------------------------------------------
-- A change of one comment
-----------------------------------------------------------------------------------------

/-- The change of one token to another text. -/
def retext (comment : Token) (text : String) (token : Token) : Token :=
  if token = comment then { token with text } else token

theorem retexts_retext {comment : Token} (isComment : comment.kind = .docComment)
    (text : String)
    : Retexts (retext comment text) where
  kind token := by
    unfold retext
    split <;> rfl
  span token := by
    unfold retext
    split <;> rfl
  line token := by
    unfold retext
    split <;> rfl
  fixed token notComment := by
    unfold retext
    split
    next same => exact absurd isComment (same ▸ notComment)
    next => rfl

theorem map_retext_of_notMem {comment : Token} {tokens : List Token}
    (absent : comment ∉ tokens) (text : String)
    : tokens.map (retext comment text) = tokens := by
  have fixed : ∀ token ∈ tokens, retext comment text token = id token := fun token isMember =>
    if_neg fun (same : token = comment) => absent (same ▸ isMember)
  rw [List.map_congr_left fixed, List.map_id]

theorem map_retext {comment : Token} {front back : List Token} (notFront : comment ∉ front)
    (notBack : comment ∉ back) (text : String)
    : (front ++ comment :: back).map (retext comment text)
      = front ++ { comment with text } :: back := by
  rw [List.map_append, List.map_cons, map_retext_of_notMem notFront,
    map_retext_of_notMem notBack, retext, if_pos rfl]

theorem areComments_retext {comment : Token} {comments : List Token}
    (areComments : ∀ c ∈ comment :: comments, c.kind = .docComment) (text : String)
    : ∀ c ∈ { comment with text } :: comments, c.kind = .docComment := by
  obtain ⟨isComment, others⟩ := List.forall_mem_cons.mp areComments
  exact List.forall_mem_cons.mpr ⟨isComment, others⟩

/-- A comment that trails the token in front of it, somewhere in a list behind a token. What is
in front of it begins in front of the place given.
-/
structure Trails (previous : Token) (front : List Token) (comment : Token)
    (back : List Token) (place : Nat)
  : Prop where
  isComment : comment.kind = .docComment
  notFront : comment ∉ front
  notBack : comment ∉ back
  notBehindComment : (front.getLast?.getD previous).kind ≠ .docComment
  sameLine : comment.line = (front.getLast?.getD previous).line
  inFront : ∀ token ∈ front, token.span.start < place

namespace Trails

variable {previous comment : Token} {front back : List Token} {place : Nat}

/-- Whether a comment trails the token before it does not depend on what is farther away. -/
theorem narrow {skipped more rest : List Token}
    (trails : Trails previous (skipped ++ front) comment (more ++ rest) place)
    : Trails (skipped.getLast?.getD previous) front comment more place := by
  have sameToken : (skipped ++ front).getLast?.getD previous
      = front.getLast?.getD (skipped.getLast?.getD previous) := by
    rw [List.getLast?_append]
    cases front.getLast? <;> rfl
  have notBehindComment := trails.notBehindComment
  have sameLine := trails.sameLine
  rw [sameToken] at notBehindComment sameLine
  exact
    { isComment := trails.isComment
      notFront := fun isMember => trails.notFront (List.mem_append_right _ isMember)
      notBack := fun isMember => trails.notBack (List.mem_append_left _ isMember)
      notBehindComment, sameLine
      inFront := fun token isMember =>
        trails.inFront token (List.mem_append_right _ isMember) }

/-- Only the last of what is skipped is seen. -/
theorem narrow_behind {skipped : List Token} {last : Token}
    (trails : Trails previous (skipped ++ front) comment back place)
    (isLast : skipped.getLast? = some last)
    : Trails last front comment back place := by
  rw [← List.append_nil back] at trails
  have narrowed := trails.narrow
  rwa [isLast, Option.getD_some] at narrowed

theorem frontEnds (trails : Trails previous front comment back place)
    : EndsInNoComment front := by
  intro last isLast
  have notBehindComment := trails.notBehindComment
  rwa [Option.mem_def.mp isLast, Option.getD_some] at notBehindComment

end Trails

-----------------------------------------------------------------------------------------
-- Entries of a block
-----------------------------------------------------------------------------------------

section Entries

variable {α : Type} {member : Member α}

/-- What trails a token depends on the line of that token only. -/
theorem trailing?_congr {previous previous' : Token} (same : previous.line = previous'.line)
    (tokens : List Token)
    : trailing? previous tokens = trailing? previous' tokens := by
  rw [trailing?, trailing?, same]

theorem CommentedEntries.congr {previous previous' : Token}
    (same : previous.line = previous'.line) {tokens : List Token}
    {entries : List (SchemaDoc.Entry α)}
    (areEntries : CommentedEntries member previous tokens entries)
    : CommentedEntries member previous' tokens entries := by
  cases areEntries with
  | done areComments => exact .done areComments
  | entry areComments isEntry isLast behind =>
      rw [leading, trailing?_congr same, ← leading] at isEntry
      exact .entry areComments isEntry isLast behind

theorem CommentedEntry.map {f : Token → Token} (retexts : Retexts f)
    (derives : ∀ {tokens x}, member.Derives tokens x → member.Derives (tokens.map f) x)
    {documentation : Option Documentation} {tokens : List Token} {entry : SchemaDoc.Entry α}
    (isEntry : CommentedEntry member documentation tokens entry)
    : CommentedEntry member documentation (tokens.map f) entry := by
  cases isEntry with
  | member isMember => exact .member (derives isMember)
  | marked isAttribute =>
      exact .marked (isAttribute.map retexts (by decide) (Attribute.map retexts))

/-- What stands as an entry does so under any documentation. -/
theorem CommentedEntry.redocument {documentation : Option Documentation} {tokens : List Token}
    {entry : SchemaDoc.Entry α} (isEntry : CommentedEntry member documentation tokens entry)
    (documentation' : Option Documentation)
    : ∃ entry', CommentedEntry member documentation' tokens entry' := by
  cases isEntry with
  | member isMember => exact ⟨_, .member isMember⟩
  | marked isAttribute => exact ⟨_, .marked isAttribute⟩

end Entries

/-- How members are shown as something that can be documented, and how they take a change of
comments.
-/
structure View {α : Type} (member : Member α) where
  toDocumented : α → Documented
  starts : ∀ {word back x} (documentation),
    member.Derives (word :: back) x
    → (toDocumented (member.document documentation x)).start ≤ word.span.start
  derives : ∀ {f}, Retexts f → ∀ {tokens x},
    member.Derives tokens x → member.Derives (tokens.map f) x

/-- The members among entries that begin at an offset or behind it. -/
def View.behind {α : Type} {member : Member α} (view : View member) (place : Nat)
    (entries : List (SchemaDoc.Entry α))
    : List Documented :=
  Documented.behind place ((entries.filterMap Entry.member?).map view.toDocumented)

def fieldView : View Production.fieldMember where
  toDocumented := SchemaDoc.Field.toDocumented
  starts := by
    rintro word back x documentation ⟨_, _, _, _, _, _⟩
    exact Nat.min_le_left _ _
  derives retexts := Field.map retexts

def enumValueView : View Production.enumValueMember where
  toDocumented := SchemaDoc.EnumValue.toDocumented
  starts := by
    rintro word back x documentation ⟨_, _⟩
    exact Nat.le_refl _
  derives retexts := EnumValue.map retexts

section Entries

variable {α : Type} {member : Member α} {view : View member} {place : Nat}

/-- An entry that begins in front of a place is not among those behind it. -/
theorem View.behind_cons_of_front {documentation : Option Documentation} {tokens : List Token}
    {entry : SchemaDoc.Entry α} (isEntry : CommentedEntry member documentation tokens entry)
    (inFront : ∀ token ∈ tokens, token.span.start < place)
    (entries : List (SchemaDoc.Entry α))
    : view.behind place (entry :: entries) = view.behind place entries := by
  cases isEntry with
  | marked => rfl
  | @member x isMember =>
      obtain ⟨word, back, rfl, -⟩ := member.begins isMember
      have starts := view.starts documentation isMember
      have before := inFront word List.mem_cons_self
      have excluded : ¬place ≤ (view.toDocumented (member.document documentation x)).start := by
        omega
      rw [View.behind, List.filterMap_cons]
      simp [Entry.member?, Documented.behind, excluded, View.behind]

/-- An entry stays when comments inside it change their texts, as what is behind it stays. -/
theorem CommentedEntries.entry_map {f : Token → Token} (retexts : Retexts f) (view : View member)
    {previous last : Token} {comments tokens rest : List Token} {entry : SchemaDoc.Entry α}
    {entries : List (SchemaDoc.Entry α)} (areComments : ∀ c ∈ comments, c.kind = .docComment)
    (isEntry
      : CommentedEntry member
          (Documentation.extend? (Documentation.ofTokens? (leading previous comments))
            (trailing? last rest))
          tokens entry)
    (isLast : tokens.getLast? = some last) (behind : CommentedEntries member last rest entries)
    : CommentedEntries member previous (comments ++ (tokens.map f ++ rest))
        (entry :: entries) := by
  have isEntry' := isEntry.map retexts (view.derives retexts)
  rw [← trailing?_congr (retexts.line last)] at isEntry'
  have isLast' : (tokens.map f).getLast? = some (f last) := by
    rw [List.getLast?_map, isLast, Option.map_some]
  exact .entry areComments isEntry' isLast' (behind.congr (retexts.line last).symm)

/-- With something else behind it, an entry may get other documentation. That shows in front of a
place behind its tokens only.
-/
theorem CommentedEntries.exists_entry (view : View member)
    {documentation : Option Documentation} {previous last : Token}
    {comments tokens rest : List Token} {entry : SchemaDoc.Entry α}
    {entries : List (SchemaDoc.Entry α)} (areComments : ∀ c ∈ comments, c.kind = .docComment)
    (isEntry : CommentedEntry member documentation tokens entry)
    (isLast : tokens.getLast? = some last) (behind : CommentedEntries member last rest entries)
    (inFront : ∀ token ∈ tokens, token.span.start < place)
    : ∃ entry',
        CommentedEntries member previous (comments ++ (tokens ++ rest)) (entry' :: entries)
        ∧ view.behind place (entry' :: entries) = view.behind place entries := by
  obtain ⟨entry', isEntry'⟩ := isEntry.redocument
    (Documentation.extend? (Documentation.ofTokens? (leading previous comments))
      (trailing? last rest))
  exact ⟨entry', .entry areComments isEntry' isLast behind,
    View.behind_cons_of_front isEntry' inFront entries⟩

/-- A change of a trailing comment changes no documentation of a member behind it. -/
theorem CommentedEntries.retexted {previous comment : Token} {tokens : List Token}
    {entries : List (SchemaDoc.Entry α)}
    (areEntries : CommentedEntries member previous tokens entries) (text : String)
    {front back : List Token} (trails : Trails previous front comment back place)
    (split : tokens = front ++ comment :: back)
    : ∃ entries',
        CommentedEntries member previous (front ++ { comment with text } :: back) entries'
        ∧ view.behind place entries' = view.behind place entries := by
  have retexts := retexts_retext trails.isComment text
  have isComment' : ({ comment with text } : Token).kind = .docComment := trails.isComment
  induction areEntries generalizing front with
  | @done previous comments areComments =>
      subst split
      obtain rfl := trails.frontEnds.eq_nil fun c isMember =>
        areComments c (List.mem_append_left _ isMember)
      exact ⟨[], .done (areComments_retext areComments text), rfl⟩
  | @entry previous comments tokens last rest entry entries areComments isEntry isLast behind ih =>
      rcases split_of_append_eq split with ⟨more, rfl, rfl⟩ | ⟨front', rfl, split'⟩
      -- the run of comments in front of the entry is split behind the one that changes
      · obtain rfl := trails.frontEnds.eq_nil fun c isMember =>
          areComments c (List.mem_append_left _ isMember)
        have sameLine : comment.line = previous.line := trails.sameLine
        rw [List.nil_append, leading_cons trails.isComment sameLine] at isEntry
        have isEntry' := @CommentedEntries.entry _ _ previous _ _ _ _ _ _
          (areComments_retext areComments text)
          (by rw [leading_cons isComment' sameLine]; exact isEntry) isLast behind
        exact ⟨_, isEntry', rfl⟩
      rcases split_of_append_eq split' with ⟨more, rfl, rfl⟩ | ⟨front'', rfl, split''⟩
      -- inside the entry the comment is passed over
      · have notFront := fun isMember => trails.notFront (List.mem_append_right _ isMember)
        have notBack := fun isMember => trails.notBack (List.mem_append_left _ isMember)
        have areEntries' :=
          CommentedEntries.entry_map retexts view areComments isEntry isLast behind
        rw [map_retext notFront notBack] at areEntries'
        refine ⟨entry :: entries, ?_, rfl⟩
        simpa only [List.append_assoc, List.cons_append] using areEntries'
      -- behind the entry it may trail it, which changes only what is in front of the comment
      · have narrowed : Trails last front'' comment back place := by
          rw [← List.append_assoc] at trails
          exact trails.narrow_behind (by rw [List.getLast?_append, isLast, Option.some_or])
        obtain ⟨entries', areEntries', same⟩ := ih narrowed split''
        have inFront : ∀ token ∈ tokens, token.span.start < place := fun token isMember =>
          trails.inFront token (by simp [isMember])
        obtain ⟨entry', whole, sameBehind⟩ :=
          CommentedEntries.exists_entry view areComments isEntry isLast areEntries' inFront
        refine ⟨entry' :: entries', ?_, ?_⟩
        · simpa only [List.append_assoc] using whole
        · rw [sameBehind, View.behind_cons_of_front isEntry inFront, same]

end Entries

end Grammar

end SchemaDoc
