import SchemaDoc.Proofs.Grammar.Parsing
import SchemaDoc.Proofs.Grammar.Renaming

/-! Names in whole schemas, with the comments that document their declarations.
A word in the place of another is on the same line, so every comment documents what it did before.
-/

namespace SchemaDoc

namespace Entry

variable {α : Type}

/-- An entry with its member changed, if it is one. -/
def mapMember (change : α → α) : Entry α → Entry α
  | .member x => .member (change x)
  | .attribute a => .attribute a

/-- An entry with its attribute changed, if it is one. -/
def mapAttribute (change : Attribute → Attribute) : Entry α → Entry α
  | .member x => .member x
  | .attribute a => .attribute (change a)

end Entry

namespace Declaration

/-- A declaration with its model changed, if it is one. -/
def mapModel (change : Model → Model) : Declaration → Declaration
  | .model m => .model (change m)
  | d => d

/-- A declaration with its enum changed, if it is one. -/
def mapEnum (change : Enum → Enum) : Declaration → Declaration
  | .enum e => .enum (change e)
  | d => d

end Declaration

namespace Grammar

open Production (Member)

-----------------------------------------------------------------------------------------
-- Comments around words
-----------------------------------------------------------------------------------------

section Entries

variable {α : Type} {member : Member α}

theorem trailing?_eq_of_line {previous other : Token} (line : other.line = previous.line)
    (tokens : List Token)
    : trailing? other tokens = trailing? previous tokens := by
  rw [trailing?, trailing?, line]

theorem leading_eq_of_line {previous other : Token} (line : other.line = previous.line)
    (tokens : List Token)
    : leading other tokens = leading previous tokens := by
  rw [leading, leading, trailing?_eq_of_line line]

/-- Of the token in front of entries only the line counts. -/
theorem CommentedEntries.of_line {previous other : Token} {tokens : List Token}
    {entries : List (SchemaDoc.Entry α)} (line : other.line = previous.line)
    (areEntries : CommentedEntries member previous tokens entries)
    : CommentedEntries member other tokens entries := by
  cases areEntries with
  | done areComments => exact .done areComments
  | entry areComments isEntry isLast behind =>
      rw [← leading_eq_of_line line] at isEntry
      exact .entry areComments isEntry isLast behind

-----------------------------------------------------------------------------------------
-- Entries
-----------------------------------------------------------------------------------------

variable {get : α → Option String} {rename : String → α → α}

/-- Names of members that can be changed, whatever documents the members. -/
structure RenamesMember (member : Member α) (get : α → Option String) (rename : String → α → α)
    : Prop where
  derives : Renames member.Derives get rename
  get_document : ∀ documentation x, get (member.document documentation x) = get x
  rename_document
    : ∀ text documentation x,
        rename text (member.document documentation x)
          = member.document documentation (rename text x)

theorem RenamesMember.entry (renames : RenamesMember member get rename)
    (documentation : Option Documentation)
    : Renames (CommentedEntry member documentation) (fun entry => entry.member?.bind get)
        (fun text => Entry.mapMember (rename text)) := by
  intro tokens entry text isEntry noDots found
  cases isEntry with
  | member isMember =>
      have found := (renames.get_document documentation _).symm.trans found
      refine (renames.derives isMember noDots found).imp fun others name _ isMember => ?_
      dsimp only [Entry.mapMember]
      rw [renames.rename_document]
      exact .member isMember
  | marked => simp [Entry.member?] at found

theorem renames_entryAttribute (slot : AttributeSlot) (documentation : Option Documentation)
    : Renames (CommentedEntry member documentation)
        (fun entry => entry.attribute?.bind (·.nameAt slot))
        (fun text => Entry.mapAttribute (·.rename slot text)) := by
  intro tokens entry text isEntry noDots found
  cases isEntry with
  | member => simp [Entry.attribute?] at found
  | marked isMarked =>
      have named := Renames.marked (renames_attribute slot) _ isMarked noDots found
      exact named.imp fun others name _ isMarked => .marked isMarked

section Changes

variable {find : SchemaDoc.Entry α → Option String}
  {change : String → SchemaDoc.Entry α → SchemaDoc.Entry α}
  (renames : ∀ documentation, Renames (CommentedEntry member documentation) find change)

include renames

/-- Names in entries, by induction on the entries in front. -/
theorem renames_entries (previous : Token) (j : Nat)
    : Renames (CommentedEntries member previous) (fun entries => entries[j]?.bind find)
        (fun text entries => entries.modify j (change text)) := by
  intro tokens entries text areEntries noDots found
  induction areEntries generalizing j with
  | done => simp at found
  | @entry previous comments tokens last rest entry entries areComments isEntry isLast behind ih =>
      have noDots := noDots.subset (List.subset_append_right comments _)
      cases j with
      | zero =>
          have named := renames _ isEntry (noDots.subset (List.subset_append_left _ _)) found
          refine named.lift comments rest fun others name same isEntry => ?_
          obtain ⟨last', isLast', line⟩ := same.exists_last isLast
          rw [← trailing?_eq_of_line line] at isEntry
          exact .entry areComments isEntry isLast' (behind.of_line line)
      | succ j =>
          have named := ih j (noDots.subset (List.subset_append_right _ _)) found
          rw [← List.append_assoc]
          refine named.behind _ fun others name same behind => ?_
          rw [← same.trailing?_eq last] at isEntry
          rw [List.append_assoc]
          exact .entry areComments isEntry isLast behind

theorem renames_blockEntry (keyword : TokenKind) (j : Nat)
    : Renames (CommentedBlock keyword member) (fun x => x.2.1[j]?.bind find)
        (fun text x => (x.1, x.2.1.modify j (change text), x.2.2)) := by
  rintro _ _ text @⟨first, name, opening, tokens, last, entries, isKeyword, isWord, opens,
    areEntries, closes⟩ noDots found
  have isInside : tokens ⊆ first :: name :: opening :: (tokens ++ [last]) :=
    fun _ isMember => by simp [isMember]
  have named := renames_entries renames opening j areEntries (noDots.subset isInside) found
  exact named.lift [first, name, opening] [last] fun others text same areEntries =>
    .mk isKeyword isWord opens areEntries closes

end Changes

theorem renames_blockName (keyword : TokenKind)
    : Renames (CommentedBlock keyword member) (fun x => some x.1.name)
        (fun text x => (x.1.rename text, x.2)) := by
  rintro _ _ text @⟨first, name, opening, tokens, last, entries, isKeyword, isWord, opens,
    areEntries, closes⟩ - found
  obtain rfl : name.text = text := Option.some.inj found
  refine @Named.mk _ _ _ [first] name _ isWord fun other takes => ?_
  dsimp only
  rw [← toIdent_of_takesPlace takes]
  exact .mk isKeyword takes.isWord opens areEntries closes

end Entries

-----------------------------------------------------------------------------------------
-- Declarations
-----------------------------------------------------------------------------------------

theorem renamesMember_field (slot : MemberSlot)
    : RenamesMember Production.fieldMember (·.nameAt slot)
        (fun text field => field.rename slot text) where
  derives := renames_field slot
  get_document _ field := by cases slot <;> rfl
  rename_document _ _ field := by cases slot <;> rfl

theorem renamesMember_enumValue (slot : MemberSlot)
    : RenamesMember Production.enumValueMember (·.nameAt slot)
        (fun text value => value.rename slot text) where
  derives := renames_enumValue slot
  get_document _ value := by cases slot <;> rfl
  rename_document _ _ value := by cases slot <;> rfl

/-- What a block holds. -/
structure Contents (α : Type) where
  name : Ident
  members : List α
  attributes : List SchemaDoc.Attribute
  span : Span

namespace Contents

variable {α : Type}

/-- The name in a place of what a block holds. -/
def nameAt (get : MemberSlot → α → Option String) (slot : BlockSlot) (contents : Contents α)
    : Option String :=
  match slot with
  | .name => some contents.name.name
  | .member i slot => contents.members[i]?.bind (get slot)
  | .attributes i slot => attributeNameAt contents.attributes i slot

/-- What a block holds with another name in a place. -/
def rename (change : MemberSlot → String → α → α) (slot : BlockSlot) (text : String)
    (contents : Contents α)
    : Contents α :=
  match slot with
  | .name => { contents with name := contents.name.rename text }
  | .member i slot => { contents with members := contents.members.modify i (change slot text) }
  | .attributes i slot =>
      { contents with attributes := renameAttribute contents.attributes i slot text }

end Contents

section Blocks

variable {α : Type} {member : Member α} {get : MemberSlot → α → Option String}
  {rename : MemberSlot → String → α → α}

/-- A block by what it holds, whatever the order of its members and attributes. -/
def Holds (keyword : TokenKind) (member : Member α) (tokens : List Token) (contents : Contents α)
    : Prop :=
  ∃ entries,
    CommentedBlock keyword member tokens (contents.name, entries, contents.span)
    ∧ contents.members = entries.filterMap Entry.member?
    ∧ contents.attributes = entries.filterMap Entry.attribute?

theorem CommentedBlock.holds {keyword : TokenKind} {tokens : List Token} {name : Ident}
    {entries : List (SchemaDoc.Entry α)} {span : Span}
    (isBlock : CommentedBlock keyword member tokens (name, entries, span))
    : Holds keyword member tokens
        ⟨name, entries.filterMap Entry.member?, entries.filterMap Entry.attribute?, span⟩ :=
  ⟨entries, isBlock, rfl, rfl⟩

theorem renames_block (renames : ∀ slot, RenamesMember member (get slot) (rename slot))
    (keyword : TokenKind) (slot : BlockSlot)
    : Renames (Holds keyword member) (Contents.nameAt get slot) (Contents.rename rename slot) := by
  rintro tokens ⟨name, _, _, span⟩ text ⟨entries, isBlock, rfl, rfl⟩ noDots found
  cases slot with
  | name =>
      have named := renames_blockName keyword isBlock noDots found
      exact named.imp fun others name _ isBlock => ⟨entries, isBlock, rfl, rfl⟩
  | member i slot =>
      obtain ⟨j, isEntry, changes⟩ := exists_modify_filterMap found
      have named := renames_blockEntry (renames slot).entry keyword j isBlock noDots isEntry
      refine named.imp fun others name _ isBlock => ⟨_, isBlock, ?_, ?_⟩
      · exact (changes _ _ fun entry => by cases entry <;> rfl).symm
      · exact (filterMap_modify (fun entry => by cases entry <;> rfl) j).symm
  | attributes i slot =>
      obtain ⟨j, isEntry, changes⟩ := exists_modify_filterMap found
      have named := renames_blockEntry (renames_entryAttribute slot) keyword j isBlock noDots
        isEntry
      refine named.imp fun others name _ isBlock => ⟨_, isBlock, ?_, ?_⟩
      · exact (filterMap_modify (fun entry => by cases entry <;> rfl) j).symm
      · exact (changes _ _ fun entry => by cases entry <;> rfl).symm

end Blocks

theorem renames_model (slot : BlockSlot) (documentation : Option Documentation)
    : Renames (CommentedDeclaration documentation) (fun d => d.model?.bind (·.nameAt slot))
        (fun text => Declaration.mapModel (·.rename slot text)) := by
  intro tokens d text isDeclaration noDots found
  cases isDeclaration with
  | model isBlock =>
      have named := renames_block renamesMember_field .model slot isBlock.holds noDots
        (by cases slot <;> exact found)
      refine named.imp fun others text _ holds => ?_
      obtain ⟨entries, isBlock, members, attributes⟩ := holds
      have isModel := @CommentedDeclaration.model documentation _ _ _ _ isBlock
      rw [← members, ← attributes] at isModel
      cases slot <;> exact isModel
  | enum => simp [Declaration.model?] at found
  | ignored => simp [Declaration.model?] at found

theorem renames_enum (slot : BlockSlot) (documentation : Option Documentation)
    : Renames (CommentedDeclaration documentation) (fun d => d.enum?.bind (·.nameAt slot))
        (fun text => Declaration.mapEnum (·.rename slot text)) := by
  intro tokens d text isDeclaration noDots found
  cases isDeclaration with
  | enum isBlock =>
      have named := renames_block renamesMember_enumValue .enum slot isBlock.holds noDots
        (by cases slot <;> exact found)
      refine named.imp fun others text _ holds => ?_
      obtain ⟨entries, isBlock, members, attributes⟩ := holds
      have isEnum := @CommentedDeclaration.enum documentation _ _ _ _ isBlock
      rw [← members, ← attributes] at isEnum
      cases slot <;> exact isEnum
  | model => simp [Declaration.enum?] at found
  | ignored => simp [Declaration.enum?] at found

-----------------------------------------------------------------------------------------
-- Schemas
-----------------------------------------------------------------------------------------

section Declarations

variable {find : SchemaDoc.Declaration → Option String}
  {change : String → SchemaDoc.Declaration → SchemaDoc.Declaration}

/-- Names in declarations, by induction on the declarations in front. -/
theorem renames_declarations
    (renames : ∀ documentation, Renames (CommentedDeclaration documentation) find change) (j : Nat)
    : Renames CommentedDeclarations (fun ds => ds[j]?.bind find)
        (fun text ds => ds.modify j (change text)) := by
  intro tokens ds text areDeclarations noDots found
  induction areDeclarations generalizing j with
  | done => simp at found
  | @declaration comments tokens rest d ds areComments isDeclaration behind ih =>
      have noDots := noDots.subset (List.subset_append_right comments _)
      cases j with
      | zero =>
          have named := renames _ isDeclaration (noDots.subset (List.subset_append_left _ _)) found
          exact named.lift comments rest fun others name _ isDeclaration =>
            .declaration areComments isDeclaration behind
      | succ j =>
          have named := ih j (noDots.subset (List.subset_append_right _ _)) found
          rw [← List.append_assoc]
          refine named.behind _ fun others name _ behind => ?_
          rw [List.append_assoc]
          exact .declaration areComments isDeclaration behind

end Declarations

/-- Tokens that a schema is read from. -/
def ReadAs (tokens : List Token) (schema : SchemaDoc.Schema) : Prop :=
  ∃ ds, CommentedDeclarations tokens ds ∧ schema = .ofDeclarations ds

theorem renames_schema (slot : SchemaSlot)
    : Renames ReadAs (·.nameAt slot) (fun text schema => schema.rename slot text) := by
  rintro tokens _ text ⟨ds, areDeclarations, rfl⟩ noDots found
  cases slot with
  | model i slot =>
      obtain ⟨j, isDeclared, changes⟩ := exists_modify_filterMap found
      have named := renames_declarations (renames_model slot) j areDeclarations noDots isDeclared
      refine named.imp fun others text _ areDeclarations => ⟨_, areDeclarations, ?_⟩
      simp only [Schema.rename, Schema.ofDeclarations]
      rw [changes _ _ fun d => by cases d <;> rfl, filterMap_modify fun d => by cases d <;> rfl]
  | enum i slot =>
      obtain ⟨j, isDeclared, changes⟩ := exists_modify_filterMap found
      have named := renames_declarations (renames_enum slot) j areDeclarations noDots isDeclared
      refine named.imp fun others text _ areDeclarations => ⟨_, areDeclarations, ?_⟩
      simp only [Schema.rename, Schema.ofDeclarations]
      rw [changes _ _ fun d => by cases d <;> rfl, filterMap_modify fun d => by cases d <;> rfl]

end Grammar

end SchemaDoc
