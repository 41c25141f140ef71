import SchemaDoc.Proofs.Grammar.Around

/-! The comments that derivations attach are those found by their places.
What documents something is the text of the comments around it. Going through the declarations of
a text these are found in order, so nothing is found twice.
-/

namespace SchemaDoc

namespace Grammar

open Production (Member)

theorem Name.stop_le {tokens : List Token} {name : Ident} {high : Nat}
    (isName : Name tokens name) (below : ∀ token ∈ tokens, token.span.stop ≤ high)
    : name.span.stop ≤ high := by
  induction isName with
  | word => exact below _ List.mem_cons_self
  | dotted _ _ _ ih =>
      have front := ih fun token isMember => below token (List.mem_append_left _ isMember)
      exact Nat.max_le.mpr ⟨front, below _ (by simp)⟩

/-- An attribute ends where its last token does. -/
theorem Attribute.stop_eq {tokens : List Token} {last : Token} {a : SchemaDoc.Attribute}
    (isAttribute : Attribute tokens a) (ordered : Token.Ordered tokens)
    (isLast : tokens.getLast? = some last)
    : a.span.stop = last.span.stop := by
  obtain ⟨isName, -⟩ := isAttribute
  have nameStop := isName.stop_le fun token isMember =>
    ordered.stop_le isLast (List.mem_append_left _ isMember)
  rw [lastSpan, isLast]
  exact Nat.max_eq_right nameStop

theorem Marked.stop_eq {mark : TokenKind} {tokens : List Token} {last : Token}
    {a : SchemaDoc.Attribute} (isMarked : Marked mark Attribute tokens a)
    (ordered : Token.Ordered tokens) (isLast : tokens.getLast? = some last)
    : a.span.stop = last.span.stop := by
  obtain @⟨sign, tokens, _, -, isAttribute⟩ := isMarked
  have notNil : tokens ≠ [] := by
    obtain ⟨isName, -⟩ := isAttribute
    exact isName.append_ne_nil
  refine isAttribute.stop_eq (ordered.sublist (List.sublist_cons_self _ _)) ?_
  rwa [List.getLast?_cons_of_ne_nil notNil] at isLast

/-- The last attribute ends where the last token does. -/
theorem attributes_stop_eq {tokens : List Token} {last : Token}
    {attributes : List SchemaDoc.Attribute}
    (areAttributes : Sequence (Marked .atSign Attribute) tokens attributes)
    (ordered : Token.Ordered tokens) (isLast : tokens.getLast? = some last)
    : ∃ a, attributes.getLast? = some a ∧ a.span.stop = last.span.stop := by
  induction areAttributes with
  | nil => simp at isLast
  | @cons tokens rest a attributes isMarked behind ih =>
      cases behind with
      | nil =>
          rw [List.append_nil] at ordered isLast
          exact ⟨a, rfl, isMarked.stop_eq ordered isLast⟩
      | cons isNext _ =>
          obtain ⟨-, -⟩ := isNext
          rw [List.getLast?_append_of_ne_nil _ (by simp)] at isLast
          exact ih (ordered.sublist (List.sublist_append_right _ _)) isLast

-----------------------------------------------------------------------------------------
-- Members
-----------------------------------------------------------------------------------------

/-- Members show where they begin and end, and what documents them. -/
def Locates {α : Type} (member : Member α) (node : α → DocNode) : Prop :=
  ∀ ⦃documentation word back last x⦄,
    member.Derives (word :: back) x
    → Token.Ordered (word :: back)
    → (word :: back).getLast? = some last
    → node (member.document documentation x)
      = ⟨documentation, word.span.start, some last.span.stop⟩

theorem locates_field : Locates Production.fieldMember SchemaDoc.Field.node := by
  intro documentation word back last x isField ordered isLast
  obtain ⟨-, -, -, -, -, -⟩ := isField
  simp only [Production.fieldMember, SchemaDoc.Field.node, ordered.fullSpan_eq isLast]

theorem locates_enumValue : Locates Production.enumValueMember SchemaDoc.EnumValue.node := by
  intro documentation word back last x isValue ordered isLast
  obtain ⟨-, areAttributes⟩ := isValue
  have all := areAttributes
  cases areAttributes with
  | nil =>
      obtain rfl : word = last := by simpa using isLast
      rfl
  | cons isFirst _ =>
      obtain ⟨-, -⟩ := isFirst
      rw [List.getLast?_cons_of_ne_nil (by simp)] at isLast
      obtain ⟨a, isLastAttribute, stop⟩ := attributes_stop_eq all
        (ordered.sublist (List.sublist_cons_self word _)) isLast
      simp only [Production.enumValueMember, SchemaDoc.EnumValue.node, isLastAttribute,
        Option.elim_some, stop]

section Entries

variable {α : Type} {member : Member α} {node : α → DocNode}
  {whole front comments tokens rest : List Token} {previous last : Token}

/-- The comment that trails an attribute. -/
def attributeComments (whole : List Token) (a : SchemaDoc.Attribute) : List Token :=
  (Token.trailingAt? whole a.span.stop).toList

/-- What belongs to an entry: the comments of a member, and the one that trails an attribute. -/
def entryComments (node : α → DocNode) (whole : List Token) : SchemaDoc.Entry α → List Token
  | .member x => (node x).comments whole
  | .attribute a => attributeComments whole a

/-- The comment behind an entry is found at its end. -/
theorem trailingAt?_eq (ordered : Token.Ordered whole)
    (split : whole = front ++ (tokens ++ rest)) (isLast : tokens.getLast? = some last)
    (notAtEnd : rest ≠ [])
    : Token.trailingAt? whole last.span.stop = trailing? last rest := by
  obtain ⟨others, rfl⟩ := List.getLast?_eq_some_iff.mp isLast
  have split' : whole = (front ++ others) ++ last :: rest := by rw [split]; simp
  rw [split'] at ordered ⊢
  exact ordered.trailingAt?_eq notAtEnd

/-- The comments of a member are found around it. -/
theorem comments_member_eq (documentation : Option Documentation)
    (locates : Locates member node) (ordered : Token.Ordered whole)
    (split : whole = front ++ previous :: (comments ++ (tokens ++ rest)))
    (isPrevious : previous.kind ≠ .docComment)
    (areComments : ∀ c ∈ comments, c.kind = .docComment) {x : α}
    (isMember : member.Derives tokens x) (isLast : tokens.getLast? = some last)
    (notAtEnd : rest ≠ [])
    : (node (member.document documentation x)).documentation = documentation
      ∧ (node (member.document documentation x)).comments whole
        = leading previous comments ++ (trailing? last rest).toList := by
  obtain ⟨word, back, rfl, -⟩ := member.begins isMember
  have split' : whole = (front ++ previous :: comments) ++ ((word :: back) ++ rest) := by
    rw [split]
    simp
  have trails := trailingAt?_eq ordered split' isLast notAtEnd
  have begins : Token.before whole word.span.start = front ++ previous :: comments := by
    rw [split'] at ordered ⊢
    exact ordered.before_eq
  have tokensOrdered : Token.Ordered (word :: back) := by
    rw [split'] at ordered
    exact ordered.sublist
      ((List.sublist_append_left _ _).trans (List.sublist_append_right _ _))
  rw [locates isMember tokensOrdered isLast]
  refine ⟨rfl, ?_⟩
  simp only [DocNode.comments, trails, begins, Token.leadingRun_append isPrevious areComments]

theorem comments_attribute_eq (ordered : Token.Ordered whole)
    (split : whole = front ++ (tokens ++ rest)) {a : SchemaDoc.Attribute}
    (isMarked : Marked .doubleAt Attribute tokens a) (isLast : tokens.getLast? = some last)
    (notAtEnd : rest ≠ [])
    : entryComments node whole (.attribute a) = (trailing? last rest).toList := by
  have tokensOrdered : Token.Ordered tokens := by
    rw [split] at ordered
    exact ordered.sublist
      ((List.sublist_append_left _ _).trans (List.sublist_append_right _ _))
  rw [entryComments, attributeComments, isMarked.stop_eq tokensOrdered isLast,
    trailingAt?_eq ordered split isLast notAtEnd]

/-- What belongs to an entry is found in front of it and behind it, in this order. -/
theorem CommentedEntry.comments_sublist (locates : Locates member node)
    (ordered : Token.Ordered whole) {documentation : Option Documentation}
    {entry : SchemaDoc.Entry α} (isEntry : CommentedEntry member documentation tokens entry)
    (split : whole = front ++ previous :: (comments ++ (tokens ++ rest)))
    (isPrevious : previous.kind ≠ .docComment)
    (areComments : ∀ c ∈ comments, c.kind = .docComment) (isLast : tokens.getLast? = some last)
    (notAtEnd : rest ≠ [])
    : (entryComments node whole entry).Sublist
        (leading previous comments ++ (trailing? last rest).toList) := by
  cases isEntry with
  | @member x isMember =>
      have found := comments_member_eq documentation locates ordered split isPrevious
        areComments isMember isLast notAtEnd
      exact found.2 ▸ List.Sublist.refl _
  | marked isMarked =>
      have split' : whole = (front ++ previous :: comments) ++ (tokens ++ rest) := by
        rw [split]
        simp
      rw [comments_attribute_eq ordered split' isMarked isLast notAtEnd]
      exact List.sublist_append_right _ _

/-- What belongs to the entries of a block is found there in order, so nothing belongs to two of
them. The induction is from the front, where the comment that trails the last entry is left out.
-/
theorem CommentedEntries.comments_sublist (locates : Locates member node)
    (endInside : ∀ {tokens x}, member.Derives tokens x → EndsInside tokens)
    (ordered : Token.Ordered whole) {brace : Token} {back : List Token}
    {entries : List (SchemaDoc.Entry α)}
    (areEntries : CommentedEntries member previous tokens entries)
    (split : whole = front ++ previous :: (tokens ++ brace :: back))
    (isPrevious : previous.kind ≠ .docComment) (closes : brace.kind = .rightBrace)
    : (entries.flatMap (entryComments node whole)).Sublist (leading previous tokens) := by
  induction areEntries generalizing front with
  | done => exact List.nil_sublist _
  | @entry previous comments tokens last rest entry entries areComments isEntry isLast _ ih =>
      have trails : trailing? last (rest ++ brace :: back) = trailing? last rest :=
        trailing?_append (by simp [closes])
      have ends := isEntry.endsInside endInside last isLast
      obtain ⟨first, more, begins, isFirst⟩ := isEntry.uncons
      have notComment : ∀ token ∈ (tokens ++ rest).head?, token.kind ≠ .docComment := by
        intro token isHead
        obtain rfl : first = token := by simpa [begins] using isHead
        rcases isFirst with isWord | isMark
        · exact Token.kind_ne_of_isWord isWord rfl
        · simp [isMark]
      have split' : whole
          = front ++ previous :: (comments ++ (tokens ++ (rest ++ brace :: back))) := by
        rw [split]
        simp
      have own := isEntry.comments_sublist locates ordered split' isPrevious areComments isLast
        (by simp)
      rw [trails] at own
      obtain ⟨before, rfl⟩ := List.getLast?_eq_some_iff.mp isLast
      have others := @ih (front ++ previous :: (comments ++ before)) (by rw [split]; simp)
        fun isComment => ends (isComment ▸ List.mem_cons_self)
      have both := own.append others
      rw [List.append_assoc, trailing?_append_leading] at both
      rw [List.flatMap_cons, leading_append previous comments notComment]
      exact both.trans ((List.Sublist.refl _).append (List.sublist_append_right _ _))

end Entries

-----------------------------------------------------------------------------------------
-- How comments are attached
-----------------------------------------------------------------------------------------

/-- How a comment belongs to something. It stands in front of a member of a block, with only
comments in between, and does not trail what is before; or it trails a member; or it stands in
front of a model or an enum.
-/
inductive Attached (whole : List Token) (c : Token) : Prop
  | leads {front comments first back}
    (split : whole = front ++ c :: (comments ++ first :: back))
    (areComments : ∀ c ∈ comments, c.kind = .docComment) (isWord : first.isWord = true)
    (notTrailing : ∀ last ∈ front.getLast?, last.kind = .docComment ∨ c.line ≠ last.line)
    (inBlock
      : ∃ last,
          (front.rdropWhile Token.isDocComment).getLast? = some last ∧ last.kind ≠ .rightBrace)
    : Attached whole c
  | trails {front last back} (split : whole = front ++ c :: back)
    (behind : front.getLast? = some last)
    (isInside : last.kind ∉ [.docComment, .leftBrace, .rightBrace])
    (sameLine : c.line = last.line)
    : Attached whole c
  | heads {front comments first back} (split : whole = front ++ c :: (comments ++ first :: back))
    (areComments : ∀ c ∈ comments, c.kind = .docComment)
    (isKeyword : first.kind = .model ∨ first.kind = .enum)
    (atTop : ∀ last ∈ front.getLast?, last.kind = .docComment ∨ last.kind = .rightBrace)
    : Attached whole c

/-- A comment in front of a member is behind another comment, or not on the line before. -/
theorem split_of_mem_leading {previous c : Token} {comments : List Token}
    (isLeading : c ∈ leading previous comments)
    (areComments : ∀ c ∈ comments, c.kind = .docComment)
    : ∃ before behind,
        comments = before ++ c :: behind ∧ (before = [] → c.line ≠ previous.line) := by
  cases comments with
  | nil => simp [leading] at isLeading
  | cons first others =>
      have isComment := areComments first List.mem_cons_self
      by_cases sameLine : first.line = previous.line
      · rw [leading_cons isComment sameLine] at isLeading
        obtain ⟨before, behind, rfl⟩ := List.append_of_mem isLeading
        exact ⟨first :: before, behind, rfl, by simp⟩
      · obtain ⟨before, behind, split⟩ := List.append_of_mem (List.mem_of_mem_drop isLeading)
        refine ⟨before, behind, split, ?_⟩
        rintro rfl
        rwa [← (List.cons.inj split).1]

variable {whole : List Token}

theorem attached_of_mem_leading {front comments back : List Token} {previous first c : Token}
    (split : whole = front ++ previous :: (comments ++ first :: back))
    (isPrevious : previous.kind ≠ .docComment ∧ previous.kind ≠ .rightBrace)
    (areComments : ∀ c ∈ comments, c.kind = .docComment) (isWord : first.isWord = true)
    (isLeading : c ∈ leading previous comments)
    : Attached whole c := by
  obtain ⟨before, behind, rfl, notTrailing⟩ := split_of_mem_leading isLeading areComments
  have split' : whole = (front ++ previous :: before) ++ c :: (behind ++ first :: back) := by
    rw [split]
    simp
  have beforeComments : ∀ c ∈ before, c.kind = .docComment := fun c isMember =>
    areComments c (List.mem_append_left _ isMember)
  refine .leads split' (fun c isMember => areComments c (by simp [isMember])) isWord ?_ ?_
  · intro last isLast
    rw [List.getLast?_append_of_ne_nil _ (List.cons_ne_nil _ _), Option.mem_def] at isLast
    cases before with
    | nil =>
        obtain rfl : previous = last := by simpa using isLast
        exact .inr (notTrailing rfl)
    | cons first others =>
        rw [List.getLast?_cons_cons] at isLast
        exact .inl (beforeComments last (List.mem_of_getLast? isLast))
  · have cut := (@Token.cut_append (front ++ [previous]) before (by simpa using isPrevious.1)
      beforeComments).1
    rw [List.append_assoc, List.singleton_append] at cut
    rw [cut]
    exact ⟨previous, List.getLast?_concat, isPrevious.2⟩

theorem attached_of_mem_trailing? {front back : List Token} {last c : Token}
    (split : whole = front ++ last :: back)
    (isInside : last.kind ∉ [.docComment, .leftBrace, .rightBrace])
    (isTrailing : trailing? last back = some c)
    : Attached whole c := by
  obtain ⟨rest, rfl, -, sameLine⟩ := trailing?_eq_some_iff.mp isTrailing
  have split' : whole = (front ++ [last]) ++ c :: rest := by
    rw [split]
    simp
  exact .trails split' List.getLast?_concat isInside sameLine

/-- What documents something is the text of its comments, which are all attached. -/
structure IsDocumented (whole : List Token) (node : DocNode) : Prop where
  text : node.documentation.map Documentation.text = joined? (node.comments whole)
  attached : ∀ c ∈ node.comments whole, Attached whole c

theorem EntryOccurs.isDocumented {α : Type} {member : Member α} {node : α → DocNode}
    (locates : Locates member node) (ordered : Token.Ordered whole) {x : α}
    (occurs : EntryOccurs member whole (.member x))
    : IsDocumented whole (node x) := by
  obtain @⟨front, previous, comments, tokens, last, rest, _, split, isPrevious, areComments,
    isEntry, isLast, ends, notAtEnd⟩ := occurs
  cases isEntry with
  | member isMember =>
      obtain ⟨documents, found⟩ := comments_member_eq _ locates ordered split isPrevious.1
        areComments isMember isLast notAtEnd
      refine ⟨?_, fun c isComment => ?_⟩
      · rw [found, documents, Documentation.text_extend?]
      · rw [found] at isComment
        rcases List.mem_append.mp isComment with isLeading | isTrailing
        · obtain ⟨word, back, rfl, isWord⟩ := member.begins isMember
          exact attached_of_mem_leading split isPrevious areComments isWord isLeading
        · obtain ⟨others, rfl⟩ := List.getLast?_eq_some_iff.mp isLast
          have split' : whole = (front ++ previous :: (comments ++ others)) ++ last :: rest := by
            rw [split]
            simp
          exact attached_of_mem_trailing? split' (ends last isLast)
            (Option.mem_toList.mp isTrailing)

-----------------------------------------------------------------------------------------
-- Declarations
-----------------------------------------------------------------------------------------

section Blocks

variable {α : Type} {member : Member α} {keyword : TokenKind} {node : α → DocNode}
  {front comments tokens back : List Token} {name : Ident} {entries : List (SchemaDoc.Entry α)}
  {span : Span}

/-- A block begins where its keyword does, and the whole run in front of that belongs to it. -/
theorem CommentedBlock.comments_eq (ordered : Token.Ordered whole)
    (isBlock : CommentedBlock keyword member tokens (name, entries, span))
    (split : whole = front ++ (comments ++ (tokens ++ back)))
    (frontEnds : ∀ last ∈ front.getLast?, last.kind = .rightBrace)
    (areComments : ∀ c ∈ comments, c.kind = .docComment) (documentation : Option Documentation)
    : (⟨documentation, span.start, none⟩ : DocNode).comments whole = comments
      ∧ ∃ first rest, tokens = first :: rest ∧ first.kind = keyword := by
  obtain @⟨first, name, opening, inner, last, _, isKeyword, -, -, -, -⟩ := isBlock
  refine ⟨?_, first, _, rfl, isKeyword⟩
  rw [← List.append_assoc] at split
  rw [split] at ordered
  have behind := (List.pairwise_append.mp ordered.pairwise).2.1
  have isBefore := (List.pairwise_cons.mp behind).1 last (by simp)
  have starts : (first.span.merge last.span).start = first.span.start :=
    Nat.min_eq_left (by omega)
  have begins : Token.before whole first.span.start = front ++ comments := by
    rw [split]
    exact ordered.before_eq
  have frontEnds' : ∀ last ∈ front.getLast?, last.kind ≠ .docComment := by
    intro last isLast
    simp [frontEnds last isLast]
  simp only [DocNode.comments, starts, begins]
  exact (Token.cut_append frontEnds' areComments).2

/-- A model or an enum is documented by the run of comments in front of it. -/
theorem CommentedBlock.isDocumented (ordered : Token.Ordered whole)
    (isBlock : CommentedBlock keyword member tokens (name, entries, span))
    (isKeyword : keyword = .model ∨ keyword = .enum)
    (split : whole = front ++ (comments ++ (tokens ++ back)))
    (frontEnds : ∀ last ∈ front.getLast?, last.kind = .rightBrace)
    (areComments : ∀ c ∈ comments, c.kind = .docComment)
    : IsDocumented whole ⟨Documentation.ofTokens? comments, span.start, none⟩ := by
  obtain ⟨run, first, rest, rfl, isFirst⟩ := isBlock.comments_eq ordered split frontEnds
    areComments (Documentation.ofTokens? comments)
  refine ⟨?_, fun c isComment => ?_⟩
  · have text := Documentation.text_extend? comments none
    rw [Option.toList_none, List.append_nil] at text
    rw [run]
    exact text
  · rw [run] at isComment
    obtain ⟨before, behind, rfl⟩ := List.append_of_mem isComment
    have split' : whole = (front ++ before) ++ c :: (behind ++ first :: (rest ++ back)) := by
      rw [split]
      simp
    refine .heads split' (fun c isMember => areComments c (by simp [isMember]))
      (isFirst ▸ isKeyword) fun last isLast => ?_
    rw [Option.mem_def, List.getLast?_append, Option.or_eq_some_iff] at isLast
    rcases isLast with isBefore | ⟨-, inFront⟩
    · exact .inl (areComments last (List.mem_append_left _ (List.mem_of_getLast? isBefore)))
    · exact .inr (frontEnds last inFront)

/-- What belongs to the entries of a block is found in the block. -/
theorem CommentedBlock.comments_sublist (locates : Locates member node)
    (endInside : ∀ {tokens x}, member.Derives tokens x → EndsInside tokens)
    (ordered : Token.Ordered whole)
    (isBlock : CommentedBlock keyword member tokens (name, entries, span))
    (split : whole = front ++ (tokens ++ back))
    : (entries.flatMap (entryComments node whole)).Sublist tokens := by
  obtain @⟨first, name, opening, inner, last, _, -, -, opens, areEntries, closes⟩ := isBlock
  have split' : whole = (front ++ [first, name]) ++ opening :: (inner ++ last :: back) := by
    rw [split]
    simp
  have found := areEntries.comments_sublist locates endInside ordered split'
    (by simp [opens]) closes
  have inside : (leading opening inner).Sublist (inner ++ [last]) :=
    (List.drop_sublist _ _).trans (List.sublist_append_left inner [last])
  exact found.trans (((inside.cons opening).cons name).cons first)

/-- Entries are members and attributes. -/
theorem entries_perm (node : α → DocNode) (whole : List Token)
    (entries : List (SchemaDoc.Entry α))
    : (((entries.filterMap Entry.member?).map node).flatMap (DocNode.comments whole)
          ++ (entries.filterMap Entry.attribute?).flatMap (attributeComments whole)).Perm
        (entries.flatMap (entryComments node whole)) := by
  induction entries with
  | nil => exact .nil
  | cons entry entries ih =>
      rcases entry with x | a
      · exact (List.append_assoc ..) ▸ ih.append_left ((node x).comments whole)
      · exact (List.perm_append_comm_assoc ..).trans (ih.append_left (attributeComments whole a))

/-- What belongs to a block and what is in it is found in front of it and in it. -/
theorem CommentedBlock.comments_subperm (locates : Locates member node)
    (endInside : ∀ {tokens x}, member.Derives tokens x → EndsInside tokens)
    (ordered : Token.Ordered whole)
    (isBlock : CommentedBlock keyword member tokens (name, entries, span))
    (split : whole = front ++ (comments ++ (tokens ++ back)))
    (frontEnds : ∀ last ∈ front.getLast?, last.kind = .rightBrace)
    (areComments : ∀ c ∈ comments, c.kind = .docComment) (documentation : Option Documentation)
    : ((⟨documentation, span.start, none⟩
            :: (entries.filterMap Entry.member?).map node).flatMap (DocNode.comments whole)
          ++ (entries.filterMap Entry.attribute?).flatMap (attributeComments whole)).Subperm
        (comments ++ tokens) := by
  obtain ⟨run, -⟩ := isBlock.comments_eq ordered split frontEnds areComments documentation
  rw [← List.append_assoc] at split
  have inside := (entries_perm node whole entries).subperm.trans
    (isBlock.comments_sublist locates endInside ordered split).subperm
  rw [List.flatMap_cons, run, List.append_assoc]
  exact (List.subperm_append_left comments).mpr inside

end Blocks

theorem DeclarationOccurs.isDocumented_model (ordered : Token.Ordered whole)
    {m : SchemaDoc.Model} (occurs : DeclarationOccurs whole (.model m))
    : ∀ node ∈ m.nodes, IsDocumented whole node := by
  obtain ⟨fields, -⟩ := occurs.model
  obtain ⟨split, frontEnds, areComments, isDeclaration⟩ := occurs
  refine List.forall_mem_cons.mpr ⟨?_, List.forall_mem_map.mpr fun field isMember =>
    (fields field isMember).isDocumented locates_field ordered⟩
  cases isDeclaration with
  | model isBlock =>
      exact isBlock.isDocumented ordered (.inl rfl) split frontEnds areComments

theorem DeclarationOccurs.isDocumented_enum (ordered : Token.Ordered whole)
    {e : SchemaDoc.Enum} (occurs : DeclarationOccurs whole (.enum e))
    : ∀ node ∈ e.nodes, IsDocumented whole node := by
  obtain ⟨values, -⟩ := occurs.enum
  obtain ⟨split, frontEnds, areComments, isDeclaration⟩ := occurs
  refine List.forall_mem_cons.mpr ⟨?_, List.forall_mem_map.mpr fun value isMember =>
    (values value isMember).isDocumented locates_enumValue ordered⟩
  cases isDeclaration with
  | enum isBlock =>
      exact isBlock.isDocumented ordered (.inr rfl) split frontEnds areComments

/-- What belongs to a declaration and what is in it. -/
def declarationComments (whole : List Token) : SchemaDoc.Declaration → List Token
  | .model m =>
      m.nodes.flatMap (DocNode.comments whole) ++ m.attributes.flatMap (attributeComments whole)
  | .enum e =>
      e.nodes.flatMap (DocNode.comments whole) ++ e.attributes.flatMap (attributeComments whole)
  | .ignored => []

/-- What belongs to declarations is found in order, so nothing belongs to two of them. -/
theorem CommentedDeclarations.comments_subperm (ordered : Token.Ordered whole)
    {front tokens back : List Token} {ds : List SchemaDoc.Declaration}
    (areDeclarations : CommentedDeclarations tokens ds)
    (split : whole = front ++ (tokens ++ back))
    (frontEnds : ∀ last ∈ front.getLast?, last.kind = .rightBrace)
    : (ds.flatMap (declarationComments whole)).Subperm tokens := by
  induction areDeclarations generalizing front with
  | done => exact (List.nil_sublist _).subperm
  | @declaration comments tokens rest d ds areComments isDeclaration _ ih =>
      have split' : whole = front ++ (comments ++ (tokens ++ (rest ++ back))) := by
        rw [split]
        simp
      have own : (declarationComments whole d).Subperm (comments ++ tokens) := by
        cases isDeclaration with
        | model isBlock =>
            exact isBlock.comments_subperm locates_field Field.endsInside ordered split' frontEnds
              areComments _
        | enum isBlock =>
            exact isBlock.comments_subperm locates_enumValue EnumValue.endsInside ordered split'
              frontEnds areComments _
        | ignored => exact (List.nil_sublist _).subperm
      have others := @ih (front ++ (comments ++ tokens)) (by rw [split]; simp)
        (isDeclaration.ends_of_append front comments)
      rw [List.flatMap_cons, ← List.append_assoc]
      exact own.append others

end Grammar

end SchemaDoc
