import SchemaDoc.Proofs.Grammar.Attached

/-! What documents the declarations of a text and their members, and which comments document
nothing. Everything is said by places in the tokens of the text, and holds of every schema that
can be read from it.
-/

namespace SchemaDoc

open Grammar

-----------------------------------------------------------------------------------------
-- All comments of a schema
-----------------------------------------------------------------------------------------

/-- Everything in a schema that can be documented. -/
def Schema.nodes (schema : Schema) : List DocNode :=
  schema.models.flatMap Model.nodes ++ schema.enums.flatMap Enum.nodes

/-- The attributes of whole blocks. -/
def Schema.blockAttributes (schema : Schema) : List Attribute :=
  schema.models.flatMap Model.attributes ++ schema.enums.flatMap Enum.attributes

/-- What belongs to a schema is what belongs to its declarations. -/
theorem Schema.comments_perm (whole : List Token) (ds : List Declaration)
    : ((ofDeclarations ds).nodes.flatMap (DocNode.comments whole)
          ++ (ofDeclarations ds).blockAttributes.flatMap (attributeComments whole)).Perm
        (ds.flatMap (declarationComments whole)) := by
  refine List.perm_iff_count.mpr fun c => ?_
  induction ds with
  | nil => rfl
  | cons d ds ih =>
      simp only [ofDeclarations, nodes, blockAttributes, List.flatMap_append,
        List.count_append] at ih
      cases d <;>
        simp only [ofDeclarations, nodes, blockAttributes, declarationComments,
          Declaration.model?, Declaration.enum?, List.filterMap_cons, List.flatMap_cons,
          List.flatMap_append, List.count_append, List.count_nil] <;>
        omega

/-- What belongs to declarations of a text is found among its tokens, and nothing is found twice. -/
theorem Schema.comments_nodup {text : String} {ds : List Declaration}
    (areDeclarations : CommentedDeclarations (Token.beforeEnd (tokenize text)) ds)
    : ((ofDeclarations ds).nodes.flatMap (DocNode.comments (Token.significant (tokenize text)))
        ++ (ofDeclarations ds).blockAttributes.flatMap
          (attributeComments (Token.significant (tokenize text)))).Nodup := by
  obtain ⟨ending, whole, -⟩ := Token.significant_tokenize text
  have ordered := Token.ordered_tokenize text
  have split : Token.significant (tokenize text)
      = [] ++ (Token.beforeEnd (tokenize text) ++ [ending]) := whole
  have found := areDeclarations.comments_subperm ordered split (by simp)
  obtain ⟨_, inOrder, isSublist⟩ := (comments_perm _ ds).subperm.trans found
  have isPart : (Token.beforeEnd (tokenize text)).Sublist (Token.significant (tokenize text)) :=
    whole ▸ List.sublist_append_left _ _
  exact inOrder.nodup_iff.mp (ordered.nodup.sublist (isSublist.trans isPart))

theorem Schema.isDocumented_of_occur {whole : List Token} (ordered : Token.Ordered whole)
    {ds : List Declaration} (occur : ∀ d ∈ ds, DeclarationOccurs whole d)
    : ∀ node ∈ (ofDeclarations ds).nodes, IsDocumented whole node := by
  intro node isNode
  rcases List.mem_append.mp isNode with inModels | inEnums
  · obtain ⟨m, isModel, inModel⟩ := List.mem_flatMap.mp inModels
    exact (occur _ (Declaration.mem_models_iff.mp isModel)).isDocumented_model ordered node inModel
  · obtain ⟨e, isEnum, inEnum⟩ := List.mem_flatMap.mp inEnums
    exact (occur _ (Declaration.mem_enums_iff.mp isEnum)).isDocumented_enum ordered node inEnum

-----------------------------------------------------------------------------------------
-- Comments that document nothing
-----------------------------------------------------------------------------------------

/-- A comment that belongs to nothing in a schema. Either it stands in front of a block attribute
or a closing brace, with only comments in between, and trails nothing; or it stands at the top
level in front of a block that is passed over, or of the end; or it trails the header of a block
or a block attribute.
-/
inductive DocumentsNothing (schema : Schema) (tokens : List Token) (c : Token) : Prop
  | inFront {front comments next back}
    (split : tokens = front ++ c :: (comments ++ next :: back))
    (areComments : ∀ c ∈ comments, c.kind = .docComment)
    (isNext : next.kind = .doubleAt ∨ next.kind = .rightBrace)
    (notTrailing : ∀ last ∈ front.getLast?, last.kind = .docComment ∨ c.line ≠ last.line)
    : DocumentsNothing schema tokens c
  | atTop {front comments next back}
    (split : tokens = front ++ c :: (comments ++ next :: back))
    (areComments : ∀ c ∈ comments, c.kind = .docComment)
    (isNext : next.kind ∈ [.datasource, .generator, .endOfInput])
    (behindBlocks
      : ∀ last ∈ (front.rdropWhile Token.isDocComment).getLast?, last.kind = .rightBrace)
    : DocumentsNothing schema tokens c
  | header {front brace back} (split : tokens = front ++ c :: back)
    (behind : front.getLast? = some brace) (opens : brace.kind = .leftBrace)
    (sameLine : c.line = brace.line)
    : DocumentsNothing schema tokens c
  | blockAttribute {a} (isAttribute : a ∈ schema.blockAttributes)
    (trails : Token.trailingAt? tokens a.span.stop = some c)
    : DocumentsNothing schema tokens c

section Nothing

variable {tokens front comments back : List Token} {next c : Token}

/-- Behind a run of comments stands one token. -/
theorem next_unique {comments' back' : List Token} {next' : Token}
    (same : comments ++ next :: back = comments' ++ next' :: back')
    (areComments : ∀ c ∈ comments, c.kind = .docComment)
    (areComments' : ∀ c ∈ comments', c.kind = .docComment)
    (notComment : next.kind ≠ .docComment) (notComment' : next'.kind ≠ .docComment)
    : next = next' := by
  have found := congrArg (List.find? fun token => token.kind ≠ .docComment) same
  rw [find?_append_of_areComments areComments, find?_append_of_areComments areComments'] at found
  simpa [notComment, notComment'] using found

theorem not_attached_of_inFront (ordered : Token.Ordered tokens)
    (split : tokens = front ++ c :: (comments ++ next :: back))
    (areComments : ∀ c ∈ comments, c.kind = .docComment)
    (isNext : next.kind = .doubleAt ∨ next.kind = .rightBrace)
    (notTrailing : ∀ last ∈ front.getLast?, last.kind = .docComment ∨ c.line ≠ last.line)
    : ¬Attached tokens c := by
  have notComment : next.kind ≠ .docComment := by
    rcases isNext with isNext | isNext <;> simp [isNext]
  intro attached
  cases attached with
  | leads split' areComments' isWord =>
      obtain rfl := next_unique (ordered.split_unique split split').2 areComments areComments'
        notComment (Token.kind_ne_of_isWord isWord rfl)
      rcases isNext with isNext | isNext <;> exact Token.kind_ne_of_isWord isWord rfl isNext
  | trails split' behind isInside sameLine =>
      obtain ⟨rfl, -⟩ := ordered.split_unique split split'
      rcases notTrailing _ behind with isComment | otherLine
      · simp [isComment] at isInside
      · exact otherLine sameLine
  | heads split' areComments' isKeyword =>
      obtain rfl := next_unique (ordered.split_unique split split').2 areComments areComments'
        notComment (by rcases isKeyword with isKeyword | isKeyword <;> simp [isKeyword])
      rcases isNext with isNext | isNext <;> simp [isNext] at isKeyword

theorem not_attached_of_atTop (ordered : Token.Ordered tokens)
    (split : tokens = front ++ c :: (comments ++ next :: back))
    (areComments : ∀ c ∈ comments, c.kind = .docComment)
    (isNext : next.kind ∈ [.datasource, .generator, .endOfInput])
    (behindBlocks
      : ∀ last ∈ (front.rdropWhile Token.isDocComment).getLast?, last.kind = .rightBrace)
    : ¬Attached tokens c := by
  have notComment : next.kind ≠ .docComment := by
    intro isComment
    simp [isComment] at isNext
  intro attached
  cases attached with
  | leads split' _ _ _ inBlock =>
      obtain ⟨rfl, -⟩ := ordered.split_unique split split'
      obtain ⟨last, isLast, notBrace⟩ := inBlock
      exact notBrace (behindBlocks last isLast)
  | @trails _ last _ split' behind isInside =>
      obtain ⟨rfl, -⟩ := ordered.split_unique split split'
      have notComment : ∀ other ∈ front.getLast?, other.kind ≠ .docComment := by
        intro other isLast isComment
        obtain rfl := Option.some.inj (behind.symm.trans isLast)
        simp [isComment] at isInside
      have uncut := (@Token.cut_append front [] notComment (by simp)).1
      rw [List.append_nil] at uncut
      rw [uncut] at behindBlocks
      simp [behindBlocks last behind] at isInside
  | heads split' areComments' isKeyword =>
      obtain rfl := next_unique (ordered.split_unique split split').2 areComments areComments'
        notComment (by rcases isKeyword with isKeyword | isKeyword <;> simp [isKeyword])
      rcases isKeyword with isKeyword | isKeyword <;> simp [isKeyword] at isNext

theorem not_attached_of_header (ordered : Token.Ordered tokens) {brace : Token}
    (split : tokens = front ++ c :: back) (behind : front.getLast? = some brace)
    (opens : brace.kind = .leftBrace) (sameLine : c.line = brace.line)
    : ¬Attached tokens c := by
  intro attached
  cases attached with
  | leads split' _ _ notTrailing =>
      obtain ⟨rfl, -⟩ := ordered.split_unique split split'
      rcases notTrailing brace behind with isComment | otherLine
      · simp [opens] at isComment
      · exact otherLine sameLine
  | trails split' behind' isInside =>
      obtain ⟨rfl, -⟩ := ordered.split_unique split split'
      obtain rfl := Option.some.inj (behind.symm.trans behind')
      simp [opens] at isInside
  | heads split' _ _ atTop =>
      obtain ⟨rfl, -⟩ := ordered.split_unique split split'
      rcases atTop brace behind with isComment | closes
      · simp [opens] at isComment
      · simp [opens] at closes

end Nothing

-----------------------------------------------------------------------------------------
-- Documentation is exact
-----------------------------------------------------------------------------------------

/-- Documentation is exact. Whatever can be documented in a schema that is read from a text is
documented by the comments found around it there, and by nothing else. No comment is found around
two things, and those that stand in front of or trail what cannot be documented are found nowhere.
-/
theorem Schema.documentation_of_ofText {strict : Bool} {text : String} {schema : Schema}
    (read : ofText strict text = .ok schema)
    : let tokens := Token.significant (tokenize text)
      (∀ node ∈ schema.nodes,
        node.documentation.map Documentation.text = joined? (node.comments tokens))
      ∧ (schema.nodes.flatMap (DocNode.comments tokens)).Nodup
      ∧ ∀ c,
          DocumentsNothing schema tokens c
          → ∀ node ∈ schema.nodes, c ∉ node.comments tokens := by
  intro tokens
  obtain ⟨ds, rfl, areDeclarations, occur⟩ := occur_of_ofText read
  have ordered := Token.ordered_tokenize text
  have documented := isDocumented_of_occur ordered occur
  obtain ⟨nodup, -, apart⟩ := List.nodup_append.mp (comments_nodup areDeclarations)
  refine ⟨fun node isNode => (documented node isNode).text, nodup, ?_⟩
  intro c nothing node isNode isComment
  have attached := (documented node isNode).attached c isComment
  cases nothing with
  | inFront split areComments isNext notTrailing =>
      exact not_attached_of_inFront ordered split areComments isNext notTrailing attached
  | atTop split areComments isNext behindBlocks =>
      exact not_attached_of_atTop ordered split areComments isNext behindBlocks attached
  | header split behind opens sameLine =>
      exact not_attached_of_header ordered split behind opens sameLine attached
  | blockAttribute isAttribute trails =>
      have isTrailing : c ∈ attributeComments tokens _ := Option.mem_toList.mpr trails
      exact apart c (List.mem_flatMap_of_mem isNode isComment) c
        (List.mem_flatMap_of_mem isAttribute isTrailing) rfl

/-- An enum whose only value has a comment in front of it and one behind it, under a comment
for the enum. A comment that trails the header is found around neither of them.
-/
theorem Schema.documentation_of_ofText_kind
    : let text := "/// k\nenum K \x7b /// h\n/// d\ndraft @map(\"x\") /// t\n\x7d"
      let tokens := Token.significant (tokenize text)
      let header : Token := ⟨.docComment, "h", 2, 10, ⟨15, 20⟩⟩
      ∃ schema,
        ofText true text = .ok schema
        ∧ (∀ node ∈ schema.nodes,
            node.documentation.map Documentation.text = joined? (node.comments tokens))
        ∧ schema.nodes.map (fun node => joined? (node.comments tokens)) = [some "k", some "d\nt"]
        ∧ (schema.nodes.flatMap (DocNode.comments tokens)).Nodup
        ∧ header ∈ tokens
        ∧ ∀ node ∈ schema.nodes, header ∉ node.comments tokens := by
  intro text tokens header
  have reads : (ofText true text).toOption.map (fun schema =>
      schema.nodes.map fun node => joined? (node.comments tokens))
        = some [some "k", some "d\nt"] := by
    decide +kernel
  have split : tokens = tokens.take 4 ++ header :: tokens.drop 5 := by decide +kernel
  have behind : ((tokens.take 4).getLast?.map fun token => (token.kind, token.line))
      = some (.leftBrace, 2) := by
    decide +kernel
  cases read : ofText true text with
  | error error => simp [read, Except.toOption] at reads
  | ok schema =>
      rw [read] at reads
      obtain ⟨brace, isLast, place⟩ := Option.map_eq_some_iff.mp behind
      obtain ⟨opens, line⟩ := Prod.mk.inj place
      obtain ⟨exactly, once, nothing⟩ := documentation_of_ofText read
      have isMember : header ∈ tokens := by
        rw [split]
        simp
      exact ⟨schema, rfl, exactly, Option.some.inj reads, once, isMember,
        nothing header (.header split isLast opens line.symm)⟩

end SchemaDoc
