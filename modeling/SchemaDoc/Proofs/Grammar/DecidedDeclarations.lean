import SchemaDoc.Proofs.Grammar.DecidedAttributes
import SchemaDoc.Proofs.Grammar.Trailing

/-! Members, blocks and declarations are decided at every cursor, and can be continued from
wherever a fault stops them. What documents what does not matter for that, so of the entries and
the declarations in front of a fault only their existence is kept.
-/

namespace SchemaDoc

namespace Production

open Grammar

-----------------------------------------------------------------------------------------
-- Members
-----------------------------------------------------------------------------------------

theorem decided_fieldType (cursor : Cursor)
    : Decided fieldType (Begins TypeName) cursor := by
  refine .word_bind ⟨[.unplaced .identifier], _, by decide, .name rfl⟩ fun isWord _ => ?_
  refine .peekKind_bind (.ite (fun isUnsupported => ?_) fun _ => .pure _)
  refine .token_bind (.of_part (TypeName.name isWord)) fun opens _ => ?_
  refine .token_bind ?_ fun isString _ => .token_bind ?_ fun _ _ => .pure _
  · exact ⟨[.unplaced .string, .unplaced .rightParen], _, by decide,
      .unsupported isWord isUnsupported.1 opens rfl rfl⟩
  · exact ⟨[.unplaced .rightParen], _, by decide,
      .unsupported isWord isUnsupported.1 opens isString rfl⟩

theorem decided_listMark (cursor : Cursor)
    : Decided listMark (Begins ListMark) cursor := by
  refine .accept_bind (by decide) (fun opens _ => ?_) fun _ => .pure _
  exact .token_bind ⟨[.unplaced .rightBracket], _, by decide, .present opens rfl⟩
    fun _ _ => .pure _

theorem decided_field (documentation : Option Documentation) (cursor : Cursor)
    : Decided (field documentation) (Begins Grammar.Field) cursor := by
  have typeOnly {word : Token} {types : List Token} {type : FieldType}
      (isWord : word.isWord = true) (isType : TypeName types type)
      : Begins Grammar.Field (word :: types) :=
    .of_part (Grammar.Field.mk isWord isType .absent .absent .nil (by simp))
  refine .word_bind ?_ fun {word afterName} isWord _ => ?_
  · have isWord : (Token.unplaced .identifier).isWord = true := rfl
    exact @Begins.of_append _ _ [] _ (typeOnly isWord (.name isWord)) (by decide)
  have typed := (decided_fieldType afterName).embed [word] (typeOnly isWord)
  refine typed.sound_bind sound_fieldType fun {types _ afterType} isType _ => ?_
  have listed := (decided_listMark afterType).embed (word :: types) fun isListMark =>
    .of_part (Grammar.Field.mk isWord isType isListMark .absent .nil (by simp))
  refine listed.sound_bind sound_listMark fun {lists _ _} isListMark _ => ?_
  refine (decided_accept _).sound_bind sound_optionalMark
    fun {marks _ afterMarks} isOptionalMark _ => ?_
  have read := (decided_attributes afterMarks).embed (word :: (types ++ (lists ++ marks)))
    fun areAttributes => .of_part (Grammar.Field.mk isWord isType isListMark isOptionalMark
      areAttributes (by simp only [List.append_assoc, List.cons_append]))
  simp only [List.append_assoc, List.cons_append] at read
  exact read.bind fun _ _ => .previous_bind (decided_trailingComment.bind fun _ _ => .pure _)

theorem decided_enumValue (documentation : Option Documentation) (cursor : Cursor)
    : Decided (enumValue documentation) (Begins Grammar.EnumValue) cursor := by
  refine .word_bind ⟨[.unplaced .identifier], _, by decide, .mk rfl .nil⟩
    fun {word afterName} isWord _ => ?_
  have read := (decided_attributes afterName).embed [word] fun areAttributes =>
    .of_part (Grammar.EnumValue.mk isWord areAttributes)
  exact read.bind fun _ _ => decided_trailingComment.bind fun _ _ => .pure _

-----------------------------------------------------------------------------------------
-- Entries
-----------------------------------------------------------------------------------------

theorem sound_leadingComments
    : Sound leadingComments fun comments _ => ∀ c ∈ comments, c.kind = .docComment := by
  intro cursor next comments read
  obtain ⟨passes, areComments, -⟩ := leadingComments_eq_ok.mp read
  exact ⟨comments, passes, areComments⟩

theorem sound_trailingComment
    : Sound trailingComment fun comments _ => ∀ c ∈ comments, c.kind = .docComment := by
  intro cursor next comment read
  obtain ⟨rfl, passes⟩ := trailingComment_eq_ok.mp read
  refine ⟨_, passes, fun c isMember => ?_⟩
  have holds := (Option.filter_eq_some_iff.mp (Option.mem_toList.mp isMember)).2
  simp only [Bool.and_eq_true, decide_eq_true_eq] at holds
  exact holds.1

end Production

namespace Grammar

open Production (Member)

variable {α : Type} {member : Member α} {front back tokens : List Token}

/-- Tokens that are entries of a block behind any token, whatever documents them. -/
def AreEntries (member : Member α) (tokens : List Token) : Prop :=
  ∀ previous, ∃ entries, CommentedEntries member previous tokens entries

/-- The token before entries only matters for what documents them. -/
theorem AreEntries.of_commented {previous : Token} {entries : List (SchemaDoc.Entry α)}
    (areEntries : CommentedEntries member previous tokens entries)
    : AreEntries member tokens := by
  intro previous'
  cases areEntries with
  | done areComments => exact ⟨[], .done areComments⟩
  | entry areComments isEntry isLast behind =>
      obtain ⟨entry', isEntry'⟩ := isEntry.redocument _
      exact ⟨_, .entry areComments isEntry' isLast behind⟩

theorem AreEntries.of_comments (areComments : ∀ c ∈ tokens, c.kind = .docComment)
    : AreEntries member tokens :=
  fun _ => ⟨[], .done areComments⟩

theorem AreEntries.of_entry {documentation : Option Documentation}
    {entry : SchemaDoc.Entry α} (isEntry : CommentedEntry member documentation tokens entry)
    : AreEntries member tokens := by
  intro previous
  obtain ⟨first, rest, rfl, -⟩ := isEntry.uncons
  obtain ⟨entry', isEntry'⟩ := isEntry.redocument _
  have areEntries := @CommentedEntries.entry _ _ previous [] _ _ [] _ _ (by simp) isEntry'
    (List.getLast?_eq_some_getLast (List.cons_ne_nil first rest)) (.done (by simp))
  exact ⟨_, by simpa using areEntries⟩

/-- Entries may follow entries, by induction on the ones in front. -/
theorem AreEntries.append (areFront : AreEntries member front)
    (areBack : AreEntries member back)
    : AreEntries member (front ++ back) := by
  obtain ⟨entries, derived⟩ := areFront default
  clear areFront
  generalize (default : Token) = previous at derived
  induction derived with
  | @done previous comments areComments =>
      obtain ⟨entries', areBack⟩ := areBack previous
      cases areBack with
      | done areComments' =>
          exact .of_comments (List.forall_mem_append.mpr ⟨areComments, areComments'⟩)
      | entry areComments' isEntry isLast behind =>
          obtain ⟨entry', isEntry'⟩ := isEntry.redocument _
          have whole := @CommentedEntries.entry _ _ previous _ _ _ _ _ _
            (List.forall_mem_append.mpr ⟨areComments, areComments'⟩) isEntry' isLast behind
          rw [List.append_assoc] at whole
          exact .of_commented whole
  | @entry previous _ _ last _ _ _ areComments isEntry isLast _ ih =>
      obtain ⟨entries', behind⟩ := ih last
      obtain ⟨entry', isEntry'⟩ := isEntry.redocument _
      have whole := @CommentedEntries.entry _ _ previous _ _ _ _ _ _ areComments isEntry' isLast
        behind
      simp only [← List.append_assoc] at whole ⊢
      exact .of_commented whole

/-- Declarations, whatever they are. -/
def AreDeclarations (tokens : List Token) : Prop := ∃ ds, CommentedDeclarations tokens ds

theorem CommentedDeclaration.redocument {documentation : Option Documentation}
    {d : SchemaDoc.Declaration}
    (isDeclaration : CommentedDeclaration documentation tokens d)
    (documentation' : Option Documentation)
    : ∃ d', CommentedDeclaration documentation' tokens d' := by
  cases isDeclaration with
  | model isBlock => exact ⟨_, .model isBlock⟩
  | enum isBlock => exact ⟨_, .enum isBlock⟩
  | ignored isIgnored => exact ⟨_, .ignored isIgnored⟩

theorem AreDeclarations.of_declaration {documentation : Option Documentation}
    {d : SchemaDoc.Declaration} {comments : List Token}
    (areComments : ∀ c ∈ comments, c.kind = .docComment)
    (isDeclaration : CommentedDeclaration documentation tokens d)
    : AreDeclarations (comments ++ tokens) := by
  obtain ⟨d', isDeclaration'⟩ := isDeclaration.redocument _
  have none : CommentedDeclarations [] [] := .done (by simp)
  have whole := CommentedDeclarations.declaration areComments isDeclaration' none
  rw [List.append_nil] at whole
  exact ⟨_, whole⟩

/-- Declarations may follow declarations, by induction on the ones in front. -/
theorem AreDeclarations.append (areFront : AreDeclarations front)
    (areBack : AreDeclarations back)
    : AreDeclarations (front ++ back) := by
  obtain ⟨ds, areFront⟩ := areFront
  induction areFront with
  | done areComments =>
      obtain ⟨ds', areBack⟩ := areBack
      cases areBack with
      | done areComments' =>
          exact ⟨[], .done (List.forall_mem_append.mpr ⟨areComments, areComments'⟩)⟩
      | declaration areComments' isDeclaration behind =>
          obtain ⟨d', isDeclaration'⟩ := isDeclaration.redocument _
          have whole := CommentedDeclarations.declaration
            (List.forall_mem_append.mpr ⟨areComments, areComments'⟩) isDeclaration' behind
          rw [List.append_assoc] at whole
          exact ⟨_, whole⟩
  | declaration areComments isDeclaration _ ih =>
      obtain ⟨ds', behind⟩ := ih
      have whole := CommentedDeclarations.declaration areComments isDeclaration behind
      simp only [← List.append_assoc] at whole ⊢
      exact ⟨_, whole⟩

end Grammar

namespace Production

open Grammar

variable {α : Type} {member : Member α}

/-- Entries of a block are decided if its members are. -/
theorem decided_entries (expected : Expectation)
    (decided : ∀ documentation cursor,
      Decided (member.read documentation) (Begins member.Derives) cursor)
    {done : List Token} (areEntries : AreEntries member done) (cursor : Cursor)
    : Decided (repeated (nextEntry expected member.read) (advances_nextEntry expected member.takes))
        (fun front => Begins (Valueless (AreEntries member)) (done ++ front)) cursor := by
  refine .repeated _ (fun done _ => AreEntries member done) ?_ ?_ areEntries
  · intro done cursor areEntries
    refine decided_leadingComments.sound_bind sound_leadingComments
      fun {comments taken start} areComments _ => ?_
    have behind {tokens : List Token} (areMore : AreEntries member tokens)
        : AreEntries member (done ++ (comments ++ tokens)) :=
      areEntries.append ((AreEntries.of_comments areComments).append areMore)
    have withEntry {tokens : List Token} {entry : SchemaDoc.Entry α}
        (isEntry : CommentedEntry member none tokens entry)
        : Begins (Valueless (AreEntries member)) (done ++ (comments ++ tokens)) :=
      .of_valueless (behind (.of_entry isEntry))
    refine .peekKind_bind (.ite (fun _ => .pure _) fun _ => .ite (fun _ => ?_) fun _ =>
      .ite (fun _ => ?_) fun _ => ?_)
    · refine .token_bind (.of_valueless (behind (.of_comments (by simp))))
        fun {sign middle} isSign _ => ?_
      have read := (decided_attributeBody middle).embed (done ++ (comments ++ [sign]))
        fun isAttribute => by
          simpa using withEntry (.marked (.mk isSign isAttribute))
      simp only [List.append_assoc] at read
      exact read.bind fun _ _ => decided_trailingComment.bind fun _ _ => .pure _
    · have read := (decided (Documentation.ofTokens? taken) start).embed (done ++ comments)
        fun isMember => by
          simpa using withEntry (.member isMember)
      simp only [List.append_assoc] at read
      exact read.bind fun _ _ => .pure _
    · exact .refuse _ (.of_valueless (behind (.of_comments (by simp))))
  · intro done cursor tokens entry next areEntries read passes
    obtain ⟨comments, start, inside, stop, comment, leads, entryPassed, trails, isEntry⟩ :=
      entry_of_nextEntry read
    obtain ⟨front, frontPassed, areFront⟩ := sound_leadingComments leads
    obtain ⟨back, backPassed, areBack⟩ := sound_trailingComment trails
    obtain rfl := passes.tokens_unique (frontPassed.trans (entryPassed.trans backPassed))
    exact areEntries.append ((AreEntries.of_comments areFront).append
      ((AreEntries.of_entry isEntry).append (.of_comments areBack)))

/-- A block that is left open can be closed. -/
theorem begins_block {keyword : TokenKind} {first name opening : Token} {tokens : List Token}
    (isKeyword : first.kind = keyword) (isWord : name.isWord = true)
    (opens : opening.kind = .leftBrace) (areEntries : AreEntries member tokens)
    : Begins (CommentedBlock keyword member) (first :: name :: opening :: tokens) := by
  obtain ⟨entries, areEntries⟩ := areEntries opening
  exact ⟨[.unplaced .rightBrace], _, by decide, .mk isKeyword isWord opens areEntries rfl⟩

theorem decided_block {keyword : TokenKind} (keywordProper : (Token.unplaced keyword).IsProper)
    (named expected : Expectation)
    (decided : ∀ documentation cursor,
      Decided (member.read documentation) (Begins member.Derives) cursor)
    (cursor : Cursor)
    : Decided (block keyword named expected member.read member.takes)
        (Begins (CommentedBlock keyword member)) cursor := by
  have isWord : (Token.unplaced .identifier).isWord = true := rfl
  have opens : (Token.unplaced .leftBrace).kind = .leftBrace := rfl
  have noEntries : AreEntries member [] := .of_comments (by simp)
  refine .token_bind ?_ fun {first _} isKeyword _ => ?_
  · exact @Begins.of_append _ _ [] _ (begins_block rfl isWord opens noEntries)
      (by simpa using ⟨keywordProper, by decide⟩)
  refine .word_bind ?_ fun {name _} isWord _ => ?_
  · exact @Begins.of_append _ _ [first] _ (begins_block isKeyword isWord opens noEntries)
      (by decide)
  refine .token_bind ?_ fun {opening inner} opens _ => ?_
  · exact @Begins.of_append _ _ [first, name] _ (begins_block isKeyword isWord opens noEntries)
      (by decide)
  refine decided_trailingComment.bind fun {trail _ behind} trailed trailPassed => ?_
  obtain ⟨trail', trailPassed', areComments⟩ := sound_trailingComment trailed
  obtain rfl := trailPassed.tokens_unique trailPassed'
  have read := (decided_entries expected decided (.of_comments areComments) behind).mono
    fun front begins => begins.embed [first, name, opening] fun areEntries =>
      begins_block isKeyword isWord opens areEntries
  refine read.bind fun {tokens _ stop} run passes => ?_
  obtain ⟨tokens', passes', areEntries, -⟩ :=
    entries_of_repeats trailed ((repeated_eq_ok _).mp run)
  obtain rfl := (trailPassed.trans passes).tokens_unique passes'
  refine .token_bind ?_ fun _ _ => .pure _
  rw [List.append_nil]
  exact begins_block isKeyword isWord opens (.of_commented areEntries)

-----------------------------------------------------------------------------------------
-- Declarations
-----------------------------------------------------------------------------------------

theorem decided_ignoredBlock {keyword : TokenKind}
    (isIgnored : keyword = .datasource ∨ keyword = .generator) (cursor : Cursor)
    : Decided (ignoredBlock keyword) (Begins (Valueless IgnoredBlock)) cursor := by
  have closed {first name : Token} (isKeyword : first.kind = keyword)
      (isWord : name.isWord = true)
      : Begins (Valueless IgnoredBlock) [first, name] :=
    ⟨[.unplaced .leftBrace, .unplaced .rightBrace], (), by decide,
      .mk (isKeyword ▸ isIgnored) isWord group_of_pair⟩
  have isWord : (Token.unplaced .identifier).isWord = true := rfl
  have keywordProper : (Token.unplaced keyword).IsProper := by
    rcases isIgnored with rfl | rfl <;> decide
  refine .token_bind ?_ fun {first _} isKeyword _ => ?_
  · exact @Begins.of_append _ _ [] _ (closed rfl isWord)
      (by simpa using ⟨keywordProper, by decide⟩)
  refine .word_bind ?_ fun {name afterName} isWord _ => ?_
  · exact @Begins.of_append _ _ [first] _ (closed isKeyword isWord) (by decide)
  exact (decided_group (by decide) (by decide) (by decide) afterName).embed [first, name]
    fun isGroup => .of_valueless (.mk (isKeyword ▸ isIgnored) isWord isGroup)

/-- What is decided to be a declaration is decided to go on with declarations in front of it. -/
theorem Decided.behind {α : Type} {p : Production α} {part : List Token → α → Prop}
    {done comments : List Token} {start : Cursor} (decided : Decided p (Begins part) start)
    (areDeclarations : AreDeclarations done)
    (areComments : ∀ c ∈ comments, c.kind = .docComment)
    (isDeclaration : ∀ {tokens x}, part tokens x → ∃ d, CommentedDeclaration none tokens d)
    : Decided p (fun front => Begins (Valueless AreDeclarations) (done ++ (comments ++ front)))
        start := by
  have read := decided.embed (done ++ comments) fun {tokens _} isPart => by
    obtain ⟨d, isDeclaration⟩ := isDeclaration isPart
    have whole := areDeclarations.append (.of_declaration areComments isDeclaration)
    rw [← List.append_assoc] at whole
    exact .of_valueless whole
  simpa only [List.append_assoc] using read

/-- The next declaration is decided behind others, by cases on its keyword. -/
theorem decided_nextDeclaration {done : List Token} (areDeclarations : AreDeclarations done)
    (cursor : Cursor)
    : Decided nextDeclaration (fun front => Begins (Valueless AreDeclarations) (done ++ front))
        cursor := by
  refine decided_leadingComments.sound_bind sound_leadingComments
    fun {comments _ start} areComments _ => ?_
  refine .peekKind_bind ?_
  split
  next => exact .pure _
  next =>
    have block := @decided_block _ fieldMember .model (by decide) .modelName .fieldOrAttribute
      decided_field start
    have read := block.behind areDeclarations areComments fun isBlock => ⟨_, .model isBlock⟩
    exact (read.bind fun _ _ => .pure _).bind fun _ _ => .pure _
  next =>
    have block := @decided_block _ enumValueMember .enum (by decide) .enumName .valueOrAttribute
      decided_enumValue start
    have read := block.behind areDeclarations areComments fun isBlock => ⟨_, .enum isBlock⟩
    exact (read.bind fun _ _ => .pure _).bind fun _ _ => .pure _
  next =>
    have read := (decided_ignoredBlock (Or.inl rfl) start).behind areDeclarations areComments
      fun isIgnored => ⟨_, .ignored isIgnored⟩
    exact read.bind fun _ _ => .pure _
  next =>
    have read := (decided_ignoredBlock (Or.inr rfl) start).behind areDeclarations areComments
      fun isIgnored => ⟨_, .ignored isIgnored⟩
    exact read.bind fun _ _ => .pure _
  next =>
    refine .refuse _ (.of_valueless ?_)
    rw [List.append_nil]
    exact areDeclarations.append ⟨[], .done areComments⟩

/-- All declarations are decided. -/
theorem decided_declarations (cursor : Cursor)
    : Decided declarations (Begins (Valueless AreDeclarations)) cursor := by
  refine .repeated_of_start advances_nextDeclaration (fun done _ => AreDeclarations done)
    ⟨[], .done (by simp)⟩ ?_ ?_
  · exact fun areDeclarations => decided_nextDeclaration areDeclarations _
  · intro done cursor tokens d next areDeclarations read passes
    obtain ⟨comments, start, inside, leads, declarationPassed, isDeclaration⟩ :=
      declaration_of_nextDeclaration read
    obtain ⟨front, frontPassed, areComments⟩ := sound_leadingComments leads
    obtain rfl := passes.tokens_unique (frontPassed.trans declarationPassed)
    exact areDeclarations.append (.of_declaration areComments isDeclaration)

/-- The token that declarations are refused for is one of those that are read. -/
theorem mem_of_declarations_eq_error {last : Token} {tokens : List Token}
    {fault : Fault} (failed : declarations ⟨last, tokens⟩ = .error fault)
    : ∀ token ∈ fault.token?, token ∈ tokens := by
  cases decided_declarations ⟨last, tokens⟩ with
  | @reads passed ds back split again =>
      have read := again back rfl
      rw [← split] at read
      exact absurd (read.symm.trans failed) (by simp)
  | @fails front back fault' split found _ again =>
      have faulty := again back rfl
      rw [← split] at faulty
      obtain rfl := Except.error.inj (faulty.symm.trans failed)
      intro token isAtFault
      have isBehind : token ∈ back := List.mem_of_mem_head? (found ▸ isAtFault)
      rw [show tokens = front ++ back from split]
      exact List.mem_append_right front isBehind

end Production

end SchemaDoc
