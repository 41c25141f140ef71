import SchemaDoc.Proofs.Grammar.Declarations
import SchemaDoc.Proofs.Token.Laid

/-! Where the parts of a schema stand in its text, read off their derivations.
Each part lies between the offsets that bound its tokens, so parts that follow one another as
tokens do so as ranges, and parts of parts lie inside.
-/

namespace SchemaDoc

-----------------------------------------------------------------------------------------
-- Places of the parts of a schema
-----------------------------------------------------------------------------------------

/-- The places of an argument are ranges of the text. -/
structure Argument.IsPlaced (text : String) (argument : Argument) : Prop where
  isIn : argument.span.IsIn text
  name : ∀ name ∈ argument.name, name.span.IsIn text

/-- The arguments of an attribute stand inside it, in order. -/
structure Attribute.IsPlaced (text : String) (a : Attribute) : Prop where
  isIn : a.span.IsIn text
  name : a.name.span.IsIn text
  inOrder : Span.InOrder a.span.start (a.arguments.map Argument.span) a.span.stop
  arguments : ∀ argument ∈ a.arguments, argument.IsPlaced text

/-- The attributes of a field stand inside it, in order, and its name is what stands there. -/
structure Field.IsPlaced (text : String) (field : Field) : Prop where
  isIn : field.span.IsIn text
  nameIn : field.name.span.IsIn text
  name : field.name.IsSliceOf text
  inOrder : Span.InOrder field.span.start (field.attributes.map Attribute.span) field.span.stop
  attributes : ∀ a ∈ field.attributes, a.IsPlaced text
  documentation : ∀ d ∈ field.documentation, d.span.IsIn text

/-- The fields and the attributes of a model stand inside it, each of them in order. -/
structure Model.IsPlaced (text : String) (model : Model) : Prop where
  isIn : model.span.IsIn text
  nameIn : model.name.span.IsIn text
  name : model.name.IsSliceOf text
  fieldsInOrder : Span.InOrder model.span.start (model.fields.map Field.span) model.span.stop
  fields : ∀ field ∈ model.fields, field.IsPlaced text
  attributesInOrder
    : Span.InOrder model.span.start (model.attributes.map Attribute.span) model.span.stop
  attributes : ∀ a ∈ model.attributes, a.IsPlaced text
  documentation : ∀ d ∈ model.documentation, d.span.IsIn text

/-- A value of an enum stands in the text, with its name as what stands there. -/
structure EnumValue.IsPlaced (text : String) (value : EnumValue) : Prop where
  isIn : value.span.IsIn text
  nameIn : value.name.span.IsIn text
  name : value.name.IsSliceOf text
  attributes : ∀ a ∈ value.attributes, a.IsPlaced text
  documentation : ∀ d ∈ value.documentation, d.span.IsIn text

/-- The ranges of a value and of its attributes, which are not in the range of the value. -/
def EnumValue.spans (value : EnumValue) : List Span :=
  value.span :: value.attributes.map Attribute.span

/-- The values of an enum stand inside it with their attributes, all in order, and so do the
attributes of the whole enum.
-/
structure Enum.IsPlaced (text : String) (enum : Enum) : Prop where
  isIn : enum.span.IsIn text
  nameIn : enum.name.span.IsIn text
  name : enum.name.IsSliceOf text
  valuesInOrder
    : Span.InOrder enum.span.start (enum.values.flatMap EnumValue.spans) enum.span.stop
  values : ∀ value ∈ enum.values, value.IsPlaced text
  attributesInOrder
    : Span.InOrder enum.span.start (enum.attributes.map Attribute.span) enum.span.stop
  attributes : ∀ a ∈ enum.attributes, a.IsPlaced text
  documentation : ∀ d ∈ enum.documentation, d.span.IsIn text

-----------------------------------------------------------------------------------------
-- Ranges that tokens make up
-----------------------------------------------------------------------------------------

/-- A range of the text that lies between two offsets. -/
structure Span.Fits (text : String) (low : Nat) (span : Span) (high : Nat) : Prop where
  isIn : span.IsIn text
  above : low ≤ span.start
  below : span.stop ≤ high

theorem Span.Fits.inOrder {text : String} {low high : Nat} {span : Span}
    (fits : Fits text low span high)
    : InOrder low [span] high :=
  .singleton fits.above fits.isIn.ordered fits.below

theorem Span.Fits.mono {text : String} {low high low' high' : Nat} {span : Span}
    (fits : Fits text low span high) (below : low' ≤ low) (above : high ≤ high')
    : Fits text low' span high' :=
  ⟨fits.isIn, below.trans fits.above, fits.below.trans above⟩

theorem Span.Fits.merge {text : String} {low high : Nat} {left right : Span}
    (isLeft : Fits text low left high) (isRight : Fits text low right high)
    : Fits text low (left.merge right) high :=
  ⟨isLeft.isIn.merge isRight.isIn, Nat.le_min.mpr ⟨isLeft.above, isRight.above⟩,
    Nat.max_le.mpr ⟨isLeft.below, isRight.below⟩⟩

namespace Token.Laid

open Grammar

variable {text : String} {low high : Nat} {token : Token} {tokens : List Token}

theorem fits (laid : Laid text low tokens high) (isMember : token ∈ tokens)
    : Span.Fits text low token.span high := by
  obtain ⟨above, -, below⟩ := laid.inOrder.bounds (List.mem_map_of_mem isMember)
  exact ⟨laid.isIn token isMember, above, below⟩

theorem lastSpan_fits (laid : Laid text low tokens high) (notEmpty : tokens ≠ [])
    : Span.Fits text low (lastSpan tokens) high := by
  rw [lastSpan, List.getLast?_eq_some_getLast notEmpty]
  exact laid.fits (List.getLast_mem notEmpty)

/-- Tokens lie in front of the end of the last of them. -/
theorem toLast (laid : Laid text low tokens high) (notEmpty : tokens ≠ [])
    : Laid text low tokens (lastSpan tokens).stop := by
  obtain ⟨inOrder, isIn, isSlice⟩ := laid
  refine ⟨?_, isIn, isSlice⟩
  rcases List.eq_nil_or_concat tokens with none | ⟨front, last, rfl⟩
  · exact absurd none notEmpty
  · rw [List.concat_eq_append, List.map_append, Span.InOrder.append_iff] at inOrder ⊢
    obtain ⟨middle, inFront, above, ordered, -⟩ := inOrder
    exact ⟨middle, inFront, above, ordered, by simp [lastSpan, Span.InOrder]⟩

/-- The range of all tokens bounds them. -/
theorem fullSpan (laid : Laid text low tokens high) (notEmpty : tokens ≠ [])
    : Span.Fits text low (fullSpan tokens) high
      ∧ Laid text (fullSpan tokens).start tokens (fullSpan tokens).stop := by
  have toLast := (laid.toLast notEmpty).inOrder
  obtain ⟨first, rest, rfl⟩ := List.exists_cons_of_ne_nil notEmpty
  have fromFirst : Span.InOrder first.span.start ((first :: rest).map Token.span)
      (lastSpan (first :: rest)).stop :=
    ⟨Nat.le_refl _, toLast.2⟩
  exact ⟨(laid.fits List.mem_cons_self).merge (laid.lastSpan_fits notEmpty),
    fromFirst.mono (Nat.min_le_left _ _) (Nat.le_max_right _ _), laid.isIn, laid.isSlice⟩

end Token.Laid

-----------------------------------------------------------------------------------------
-- Parts in a row
-----------------------------------------------------------------------------------------

/-- What a part of the grammar derives has a property and stands between the offsets that bound
its tokens, with the ranges given.
-/
def Grammar.Places {α : Type} (text : String) (spans : α → List Span) (holds : α → Prop)
    (part : List Token → α → Prop)
    : Prop :=
  ∀ ⦃tokens x low high⦄,
    part tokens x
    → Token.Laid text low tokens high
    → holds x ∧ Span.InOrder low (spans x) high

namespace Grammar.Places

variable {α : Type} {text : String} {spans : α → List Span} {holds : α → Prop}
  {part : List Token → α → Prop}

theorem marked (places : Places text spans holds part) (mark : TokenKind)
    : Places text spans holds (Marked mark part) := by
  intro tokens x low high isMarked laid
  obtain ⟨-, isPart⟩ := isMarked
  obtain ⟨above, isIn, behind⟩ := laid.uncons
  obtain ⟨xHolds, inOrder⟩ := places isPart behind
  exact ⟨xHolds, inOrder.mono (above.trans isIn.ordered) (Nat.le_refl _)⟩

theorem sequence (places : Places text spans holds part)
    : Places text (List.flatMap spans) (fun xs => ∀ x ∈ xs, holds x) (Sequence part) := by
  intro tokens xs low high areParts laid
  induction areParts generalizing low with
  | nil => exact ⟨by simp, laid.inOrder⟩
  | cons isPart _ ih =>
      obtain ⟨middle, first, second⟩ := laid.split
      obtain ⟨xHolds, inFront⟩ := places isPart first
      obtain ⟨othersHold, behind⟩ := ih second
      rw [List.flatMap_cons, Span.InOrder.append_iff]
      exact ⟨List.forall_mem_cons.mpr ⟨xHolds, othersHold⟩, middle, inFront, behind⟩

theorem separated (places : Places text spans holds part)
    : Places text (List.flatMap spans) (fun xs => ∀ x ∈ xs, holds x) (Separated part) := by
  intro tokens xs low high separated laid
  induction separated generalizing low with
  | nil => exact ⟨by simp, laid.inOrder⟩
  | last isPart =>
      obtain ⟨xHolds, inOrder⟩ := places isPart laid
      exact ⟨by simpa using xHolds, by simpa using inOrder⟩
  | cons isPart _ _ ih =>
      obtain ⟨middle, first, second⟩ := laid.split
      obtain ⟨above, isIn, second⟩ := second.uncons
      obtain ⟨xHolds, inFront⟩ := places isPart first
      obtain ⟨othersHold, behind⟩ := ih second
      rw [List.flatMap_cons, Span.InOrder.append_iff]
      exact ⟨List.forall_mem_cons.mpr ⟨xHolds, othersHold⟩, middle, inFront,
        behind.mono (above.trans isIn.ordered) (Nat.le_refl _)⟩

end Grammar.Places

-----------------------------------------------------------------------------------------
-- Attributes
-----------------------------------------------------------------------------------------

namespace Grammar

variable {text : String} {low high : Nat} {tokens : List Token}

theorem Name.fits {name : Ident} (isName : Name tokens name)
    (laid : Token.Laid text low tokens high)
    : Span.Fits text low name.span high := by
  induction isName generalizing high with
  | word => exact laid.fits List.mem_cons_self
  | dotted _ _ _ ih =>
      obtain ⟨middle, front, back⟩ := laid.split
      have isFront := (ih front).mono (Nat.le_refl _) back.inOrder.le
      exact isFront.merge (laid.fits (by simp))

theorem places_argument (text : String)
    : Places text (fun a => [a.span]) (SchemaDoc.Argument.IsPlaced text) Argument := by
  intro tokens a low high isArgument laid
  cases isArgument with
  | positional isValue =>
      obtain ⟨first, back, rfl, -⟩ := isValue.uncons
      have fits := (laid.fullSpan (List.cons_ne_nil _ _)).1
      exact ⟨⟨fits.isIn, by simp⟩, fits.inOrder⟩
  | named _ _ _ =>
      have fits := (laid.fullSpan (List.cons_ne_nil _ _)).1
      have nameFits := laid.fits List.mem_cons_self
      exact ⟨⟨fits.isIn, by simpa [Token.toIdent] using nameFits.isIn⟩, fits.inOrder⟩

theorem places_arguments (text : String)
    : Places text (List.map SchemaDoc.Argument.span)
        (fun xs => ∀ a ∈ xs, SchemaDoc.Argument.IsPlaced text a) Arguments := by
  intro tokens xs low high areArguments laid
  cases areArguments with
  | absent => exact ⟨by simp, laid.inOrder⟩
  | present _ items _ =>
      obtain ⟨middle, front, back⟩ := laid.split
      obtain ⟨above, isIn, inside⟩ := front.uncons
      obtain ⟨arePlaced, inOrder⟩ := (places_argument text).separated items inside
      rw [← List.map_eq_flatMap] at inOrder
      exact ⟨arePlaced, inOrder.mono (above.trans isIn.ordered) back.inOrder.le⟩

theorem places_attribute (text : String)
    : Places text (fun a => [a.span]) (SchemaDoc.Attribute.IsPlaced text) Attribute := by
  intro tokens a low high isAttribute laid
  obtain ⟨isName, areArguments⟩ := isAttribute
  have lastFits := laid.lastSpan_fits isName.append_ne_nil
  obtain ⟨middle, front, back⟩ := (laid.toLast isName.append_ne_nil).split
  have nameFits := isName.fits front
  have before : middle ≤ high := back.inOrder.le.trans lastFits.below
  have fits := (nameFits.mono (Nat.le_refl _) before).merge lastFits
  obtain ⟨arePlaced, inOrder⟩ := places_arguments text areArguments back
  have nameFirst := nameFits.isIn.ordered.trans nameFits.below
  refine ⟨⟨fits.isIn, nameFits.isIn, ?_, arePlaced⟩, fits.inOrder⟩
  exact inOrder.mono ((Nat.min_le_left _ _).trans nameFirst) (Nat.le_max_right _ _)

theorem places_attributes (text : String) (mark : TokenKind)
    : Places text (List.map SchemaDoc.Attribute.span)
        (fun xs => ∀ a ∈ xs, SchemaDoc.Attribute.IsPlaced text a)
        (Sequence (Marked mark Attribute)) := by
  intro tokens xs low high areAttributes laid
  have places := ((places_attribute text).marked mark).sequence areAttributes laid
  rwa [← List.map_eq_flatMap] at places

end Grammar

-----------------------------------------------------------------------------------------
-- Members
-----------------------------------------------------------------------------------------

theorem Documentation.isIn_ofTokens? {text : String} {comments : List Token}
    (areIn : ∀ c ∈ comments, c.span.IsIn text)
    : ∀ d ∈ Documentation.ofTokens? comments, d.span.IsIn text := by
  cases comments with
  | nil => simp [Documentation.ofTokens?]
  | cons first others =>
      have firstIn := areIn first List.mem_cons_self
      have lastIn : (others.getLast?.getD first).span.IsIn text := by
        cases found : others.getLast? with
        | none => exact firstIn
        | some last => exact areIn last (List.mem_cons_of_mem _ (List.mem_of_getLast? found))
      simpa [Documentation.ofTokens?] using firstIn.merge lastIn

theorem Documentation.isIn_extend? {text : String} {documentation : Option Documentation}
    {comment : Option Token} (isIn : ∀ d ∈ documentation, d.span.IsIn text)
    (commentIn : ∀ c ∈ comment, c.span.IsIn text)
    : ∀ d ∈ Documentation.extend? documentation comment, d.span.IsIn text := by
  cases comment with
  | none => exact isIn
  | some comment =>
      have commentIn := commentIn comment rfl
      cases documentation with
      | none => simpa [Documentation.extend?] using commentIn
      | some documentation => simpa [Documentation.extend?] using (isIn _ rfl).merge commentIn

namespace Grammar

open Production (Member fieldMember enumValueMember)

/-- Members stand between the offsets that bound their tokens, documented by what is in the
text.
-/
def PlacesMember {α : Type} (text : String) (spans : α → List Span) (holds : α → Prop)
    (member : Member α)
    : Prop :=
  ∀ ⦃documentation tokens x low high⦄,
    (∀ d ∈ documentation, d.span.IsIn text)
    → member.Derives tokens x
    → Token.Laid text low tokens high
    → holds (member.document documentation x)
      ∧ Span.InOrder low (spans (member.document documentation x)) high

theorem places_field (text : String)
    : PlacesMember text (fun field => [field.span]) (SchemaDoc.Field.IsPlaced text)
        fieldMember := by
  intro documentation tokens field low high documentationIn isField laid
  obtain ⟨isWord, isType, isListMark, isOptionalMark, areAttributes, rfl⟩ := isField
  obtain ⟨fits, laid⟩ := laid.fullSpan (List.cons_ne_nil _ _)
  obtain ⟨above, nameIn, afterName⟩ := laid.uncons
  obtain ⟨_, types, afterTypes⟩ := afterName.split
  obtain ⟨_, lists, afterLists⟩ := afterTypes.split
  obtain ⟨_, marks, back⟩ := afterLists.split
  obtain ⟨arePlaced, inOrder⟩ := places_attributes text .atSign areAttributes back
  have fromStart := above.trans (nameIn.ordered.trans
    (types.inOrder.le.trans (lists.inOrder.le.trans marks.inOrder.le)))
  exact
    ⟨ { isIn := fits.isIn
        nameIn := nameIn
        name := laid.isSlice _ List.mem_cons_self isWord
        inOrder := inOrder.mono fromStart (Nat.le_refl _)
        attributes := arePlaced
        documentation := documentationIn },
      fits.inOrder ⟩

theorem places_enumValue (text : String)
    : PlacesMember text SchemaDoc.EnumValue.spans (SchemaDoc.EnumValue.IsPlaced text)
        enumValueMember := by
  intro documentation tokens value low high documentationIn isValue laid
  obtain ⟨isWord, areAttributes⟩ := isValue
  obtain ⟨above, nameIn, back⟩ := laid.uncons
  obtain ⟨arePlaced, inOrder⟩ := places_attributes text .atSign areAttributes back
  exact
    ⟨ { isIn := nameIn
        nameIn := nameIn
        name := laid.isSlice _ List.mem_cons_self isWord
        attributes := arePlaced
        documentation := documentationIn },
      above, nameIn.ordered, inOrder ⟩

-----------------------------------------------------------------------------------------
-- Blocks
-----------------------------------------------------------------------------------------

section Entries

variable {α : Type} {text : String} {spans : α → List Span} {holds : α → Prop}
  {member : Member α}

/-- The ranges of an entry. -/
def entrySpans (spans : α → List Span) : SchemaDoc.Entry α → List Span
  | .member x => spans x
  | .attribute a => [a.span]

/-- An entry is placed: a member has its property, and an attribute is placed. -/
def EntryHolds (text : String) (holds : α → Prop) : SchemaDoc.Entry α → Prop
  | .member x => holds x
  | .attribute a => a.IsPlaced text

theorem places_entry (places : PlacesMember text spans holds member)
    {documentation : Option Documentation}
    (documentationIn : ∀ d ∈ documentation, d.span.IsIn text)
    : Places text (entrySpans spans) (EntryHolds text holds)
        (CommentedEntry member documentation) := by
  intro tokens entry low high isEntry laid
  cases isEntry with
  | member isMember => exact places documentationIn isMember laid
  | marked isMarked => exact (places_attribute text).marked .doubleAt isMarked laid

theorem mem_of_mem_trailing? {previous token : Token} {tokens : List Token}
    (trails : token ∈ trailing? previous tokens)
    : token ∈ tokens :=
  List.mem_of_mem_head? (Option.filter_eq_some_iff.mp trails).1

/-- Entries stand in a row, by induction on their derivation. -/
theorem places_entries (places : PlacesMember text spans holds member) {previous : Token}
    : Places text (List.flatMap (entrySpans spans)) (fun xs => ∀ x ∈ xs, EntryHolds text holds x)
        (CommentedEntries member previous) := by
  intro tokens entries low high areEntries laid
  induction areEntries generalizing low with
  | done => exact ⟨by simp, laid.inOrder.le⟩
  | @entry previous comments tokens last rest entry entries _ isEntry _ _ ih =>
      obtain ⟨middle, commentsLaid, laid⟩ := laid.split
      obtain ⟨stop, entryLaid, restLaid⟩ := laid.split
      have leadIn := @Documentation.isIn_ofTokens? text (leading previous comments)
        fun c isMember => commentsLaid.isIn c (List.mem_of_mem_drop isMember)
      have documentationIn := @Documentation.isIn_extend? _ _ (trailing? last rest) leadIn
        fun c trails => restLaid.isIn c (mem_of_mem_trailing? trails)
      obtain ⟨entryHolds, inFront⟩ := places_entry places documentationIn isEntry entryLaid
      obtain ⟨othersHold, behind⟩ := ih restLaid
      rw [List.flatMap_cons, Span.InOrder.append_iff]
      exact ⟨List.forall_mem_cons.mpr ⟨entryHolds, othersHold⟩, stop,
        inFront.mono commentsLaid.inOrder.le (Nat.le_refl _), behind⟩

theorem members_sublist (spans : α → List Span) (entries : List (SchemaDoc.Entry α))
    : ((entries.filterMap Entry.member?).flatMap spans).Sublist
        (entries.flatMap (entrySpans spans)) := by
  induction entries with
  | nil => exact .slnil
  | cons entry entries ih =>
      rcases entry with x | a
      · exact (List.Sublist.refl (spans x)).append ih
      · exact ih.trans (List.sublist_append_right [a.span] _)

theorem attributes_sublist (spans : α → List Span) (entries : List (SchemaDoc.Entry α))
    : ((entries.filterMap Entry.attribute?).map SchemaDoc.Attribute.span).Sublist
        (entries.flatMap (entrySpans spans)) := by
  induction entries with
  | nil => exact .slnil
  | cons entry entries ih =>
      rcases entry with x | a
      · exact ih.trans (List.sublist_append_right (spans x) _)
      · exact (List.Sublist.refl [a.span]).append ih

/-- A block bounds its entries, and stands between the offsets that bound its tokens. -/
theorem places_block (places : PlacesMember text spans holds member) {keyword : TokenKind}
    {tokens : List Token} {name : Ident} {entries : List (SchemaDoc.Entry α)} {span : Span}
    {low high : Nat} (isBlock : CommentedBlock keyword member tokens (name, entries, span))
    (laid : Token.Laid text low tokens high)
    : Span.Fits text low span high
      ∧ name.span.IsIn text
      ∧ name.IsSliceOf text
      ∧ Span.InOrder span.start (entries.flatMap (entrySpans spans)) span.stop
      ∧ ∀ entry ∈ entries, EntryHolds text holds entry := by
  obtain ⟨isKeyword, isWord, opens, areEntries, closes⟩ := isBlock
  have lastFits := laid.fits (List.mem_cons_of_mem _ (List.mem_cons_of_mem _
    (List.mem_cons_of_mem _ (List.mem_append_right _ List.mem_cons_self))))
  have firstFits := laid.fits List.mem_cons_self
  obtain ⟨-, -, fromName⟩ := laid.uncons
  obtain ⟨afterFirst, nameIn, afterName⟩ := fromName.uncons
  obtain ⟨beforeOpening, openingIn, inside⟩ := afterName.uncons
  obtain ⟨middle, entriesLaid, lastLaid⟩ := inside.split
  obtain ⟨arePlaced, inOrder⟩ := places_entries places areEntries entriesLaid
  obtain ⟨beforeLast, lastIn, -⟩ := lastLaid.uncons
  refine ⟨firstFits.merge lastFits, nameIn, fromName.isSlice _ List.mem_cons_self isWord,
    inOrder.mono ?_ ?_, arePlaced⟩
  · have := firstFits.isIn.ordered
    have := nameIn.ordered
    have := openingIn.ordered
    rw [Span.merge_start]
    omega
  · have := lastIn.ordered
    rw [Span.merge_stop]
    omega

theorem Entry.members_hold {entries : List (SchemaDoc.Entry α)}
    (hold : ∀ entry ∈ entries, EntryHolds text holds entry)
    : ∀ x ∈ entries.filterMap Entry.member?, holds x :=
  fun _ isMember => hold _ (mem_members_iff.mp isMember)

theorem Entry.attributes_hold {entries : List (SchemaDoc.Entry α)}
    (hold : ∀ entry ∈ entries, EntryHolds text holds entry)
    : ∀ a ∈ entries.filterMap Entry.attribute?, SchemaDoc.Attribute.IsPlaced text a :=
  fun _ isMember => hold _ (mem_attributes_iff.mp isMember)

end Entries

-----------------------------------------------------------------------------------------
-- Declarations
-----------------------------------------------------------------------------------------

/-- The range of a declaration, unless it is passed over. -/
def declarationSpan? : SchemaDoc.Declaration → Option Span
  | .model model => some model.span
  | .enum enum => some enum.span
  | .ignored => none

/-- A declaration is placed, unless it is passed over. -/
def DeclarationHolds (text : String) : SchemaDoc.Declaration → Prop
  | .model model => model.IsPlaced text
  | .enum enum => enum.IsPlaced text
  | .ignored => True

theorem places_declaration {text : String} {documentation : Option Documentation}
    (documentationIn : ∀ d ∈ documentation, d.span.IsIn text)
    : Places text (fun d => (declarationSpan? d).toList) (DeclarationHolds text)
        (CommentedDeclaration documentation) := by
  intro tokens d low high isDeclaration laid
  cases isDeclaration with
  | @model name entries span isBlock =>
      obtain ⟨fits, nameIn, isSlice, inOrder, hold⟩ :=
        places_block (places_field text) isBlock laid
      have fieldsInOrder := inOrder.sublist (members_sublist _ entries)
      rw [← List.map_eq_flatMap] at fieldsInOrder
      exact
        ⟨ { isIn := fits.isIn
            nameIn := nameIn
            name := isSlice
            fieldsInOrder := fieldsInOrder
            fields := Entry.members_hold hold
            attributesInOrder := inOrder.sublist (attributes_sublist _ entries)
            attributes := Entry.attributes_hold hold
            documentation := documentationIn },
          fits.inOrder ⟩
  | @enum name entries span isBlock =>
      obtain ⟨fits, nameIn, isSlice, inOrder, hold⟩ :=
        places_block (places_enumValue text) isBlock laid
      exact
        ⟨ { isIn := fits.isIn
            nameIn := nameIn
            name := isSlice
            valuesInOrder := inOrder.sublist (members_sublist _ entries)
            values := Entry.members_hold hold
            attributesInOrder := inOrder.sublist (attributes_sublist _ entries)
            attributes := Entry.attributes_hold hold
            documentation := documentationIn },
          fits.inOrder ⟩
  | ignored isIgnored => exact ⟨trivial, laid.inOrder.le⟩

/-- Declarations stand in a row, by induction on their derivation. -/
theorem places_declarations (text : String)
    : Places text (List.flatMap fun d => (declarationSpan? d).toList)
        (fun ds => ∀ d ∈ ds, DeclarationHolds text d) CommentedDeclarations := by
  intro tokens ds low high areDeclarations laid
  induction areDeclarations generalizing low with
  | done => exact ⟨by simp, laid.inOrder.le⟩
  | declaration _ isDeclaration _ ih =>
      obtain ⟨middle, commentsLaid, laid⟩ := laid.split
      obtain ⟨stop, declarationLaid, restLaid⟩ := laid.split
      have documentationIn := Documentation.isIn_ofTokens? commentsLaid.isIn
      obtain ⟨holds, inFront⟩ := places_declaration documentationIn isDeclaration declarationLaid
      obtain ⟨othersHold, behind⟩ := ih restLaid
      rw [List.flatMap_cons, Span.InOrder.append_iff]
      exact ⟨List.forall_mem_cons.mpr ⟨holds, othersHold⟩, stop,
        inFront.mono commentsLaid.inOrder.le (Nat.le_refl _), behind⟩

end Grammar

end SchemaDoc
