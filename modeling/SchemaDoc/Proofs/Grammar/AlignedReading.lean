import SchemaDoc.Proofs.Grammar.Alignment

/-! Every production of the grammar reads values that agree from tokens that agree.
There is one fact for each production, from the attributes up to the declarations.
-/

namespace SchemaDoc

open Production

variable {view : SpanView}

-----------------------------------------------------------------------------------------
-- Values that agree
-----------------------------------------------------------------------------------------

theorem SpanView.Same.map {α : Type} {mapSpan : (Span → Span) → α → α} {xs ys : List α}
    (agree : List.Forall₂ (view.Same mapSpan) xs ys)
    : xs.map (mapSpan view.left) = ys.map (mapSpan view.right) :=
  map_eq_of_forall₂ agree fun _ _ agrees => agrees

theorem option_map_eq_of_rel {α β γ : Type} {R : α → β → Prop} {f : α → γ} {g : β → γ}
    {x? : Option α} {y? : Option β} (related : Option.Rel R x? y?)
    (same : ∀ x y, R x y → f x = g y)
    : x?.map f = y?.map g := by
  cases related with
  | none => rfl
  | some related => rw [Option.map_some, Option.map_some, same _ _ related]

/-- The places of two ranges that are covered are seen alike when they are. -/
theorem SpanView.merge_eq {s s' t t' : Span} (first : view.left s = view.right s')
    (second : view.left t = view.right t')
    : view.left (s.merge t) = view.right (s'.merge t') := by
  rw [view.left_merge, view.right_merge, first, second]

theorem extendName_same {name name' : Ident} (agrees : view.Same Ident.mapSpan name name')
    {segment segment' : Token} (alike : segment.Alike view segment')
    : view.Same Ident.mapSpan (extendName name segment) (extendName name' segment') := by
  obtain ⟨sameName, sameSpan⟩ := Ident.mk.inj agrees
  simp only [SpanView.Same, Ident.mapSpan, extendName, sameName, alike.text,
    view.merge_eq sameSpan alike.span]

theorem foldl_extendName_same {name name' : Ident} (agrees : view.Same Ident.mapSpan name name')
    {segments segments' : List Token} (alike : List.Forall₂ (Token.Alike view) segments segments')
    : view.Same Ident.mapSpan (segments.foldl extendName name)
        (segments'.foldl extendName name') := by
  induction alike generalizing name name' with
  | nil => exact agrees
  | cons head _ ih => exact ih (extendName_same agrees head)

theorem SpanView.Same.eq {α : Type} {mapSpan : (Span → Span) → α → α} {x y : α}
    (agrees : view.Same mapSpan x y)
    : mapSpan view.left x = mapSpan view.right y :=
  agrees

theorem SpanView.Same.name_eq {name name' : Ident} (agrees : view.Same Ident.mapSpan name name')
    : name.name = name'.name :=
  (Ident.mk.inj agrees).1

theorem SpanView.Same.span_eq {name name' : Ident} (agrees : view.Same Ident.mapSpan name name')
    : view.left name.span = view.right name'.span :=
  (Ident.mk.inj agrees).2

/-- Documentation of two declarations that is there for both or for neither, and agrees. -/
def Documentation.Agree (view : SpanView) (documentation documentation' : Option Documentation)
    : Prop :=
  documentation.map (Documentation.mapSpan view.left)
    = documentation'.map (Documentation.mapSpan view.right)

/-- The last of the tokens behind a token, or else that one. -/
theorem getLast?_getD_alike {first first' : Token} (head : first.Alike view first')
    {others others' : List Token} (tail : List.Forall₂ (Token.Alike view) others others')
    : (others.getLast?.getD first).Alike view (others'.getLast?.getD first') := by
  induction tail generalizing first first' with
  | nil => exact head
  | cons next _ ih =>
      rw [List.getLast?_cons, List.getLast?_cons]
      exact ih next

theorem Documentation.ofTokens?_agree {comments comments' : List Token}
    (alike : List.Forall₂ (Token.Alike view) comments comments')
    : Agree view (ofTokens? comments) (ofTokens? comments') := by
  have texts := map_eq_of_forall₂ alike fun _ _ alike => alike.text
  cases alike with
  | nil => rfl
  | cons head tail =>
      have last := getLast?_getD_alike head tail
      simp only [Agree, ofTokens?, Option.map_some, Documentation.mapSpan, texts,
        view.merge_eq head.span last.span]

theorem Documentation.Agree.eq {documentation documentation' : Option Documentation}
    (agree : Agree view documentation documentation')
    : documentation.map (Documentation.mapSpan view.left)
      = documentation'.map (Documentation.mapSpan view.right) :=
  agree

theorem Documentation.extend?_agree {documentation documentation' : Option Documentation}
    (agree : Agree view documentation documentation') {comment comment' : Option Token}
    (alike : Option.Rel (Token.Alike view) comment comment')
    : Agree view (extend? documentation comment) (extend? documentation' comment') := by
  cases alike with
  | none => simpa only [extend?] using agree
  | some alike =>
      cases documentation <;> cases documentation' <;>
        simp only [Agree, Option.map_none, Option.map_some, reduceCtorEq, Option.some.injEq]
          at agree
      · simp only [Agree, extend?, Option.map_some, Documentation.mapSpan, alike.text, alike.span]
      · obtain ⟨text, span⟩ := Documentation.mk.inj agree
        simp only [Agree, extend?, Option.map_some, Documentation.mapSpan, text, alike.text,
          view.merge_eq span alike.span]

/-- Two entries of blocks, both members or both attributes, that agree. -/
inductive Entry.Alike {α : Type} (view : SpanView) (same : α → α → Prop) : Entry α → Entry α → Prop
  | member {x y} (agrees : same x y) : Entry.Alike view same (.member x) (.member y)
  | attribute {a b} (agrees : view.Same Attribute.mapSpan a b)
    : Entry.Alike view same (.attribute a) (.attribute b)

/-- Two declarations of one kind that agree. -/
inductive Declaration.Alike (view : SpanView) : Declaration → Declaration → Prop
  | model {m n} (agrees : view.Same Model.mapSpan m n)
    : Declaration.Alike view (.model m) (.model n)
  | enum {e e'} (agrees : view.Same Enum.mapSpan e e')
    : Declaration.Alike view (.enum e) (.enum e')
  | ignored : Declaration.Alike view .ignored .ignored

namespace Production

variable {α : Type} {same : α → α → Prop}

-----------------------------------------------------------------------------------------
-- Names and items
-----------------------------------------------------------------------------------------

theorem respects_nameSegment
    : Respects view (Option.Rel (Token.Alike view)) nameSegment nameSegment :=
  (respects_accept _).bind_eq fun _ =>
    .ite ((respects_word _).bind fun _ _ alike => .pure (.some alike)) (.pure .none)

theorem respects_dottedName (expected : Expectation)
    : Respects view (view.Same Ident.mapSpan) (dottedName expected) (dottedName expected) :=
  (respects_word _).bind fun _ _ first =>
    (respects_nameSegment.repeated _ _).bind fun _ _ segments =>
      .pure (foldl_extendName_same first.toIdent segments)

theorem respects_nameWithArguments (expected : Expectation)
    : Respects view (· = ·) (nameWithArguments expected) (nameWithArguments expected) :=
  (respects_dottedName _).bind fun _ _ agrees => respects_peekKind.bind_eq fun _ =>
    .ite ((respects_group _ _).bind_eq fun _ => .pure (by rw [agrees.name_eq]))
      (.pure (by rw [agrees.name_eq]))

theorem respects_itemEnd (closing : TokenKind)
    : Respects view (· = ·) (itemEnd closing) (itemEnd closing) :=
  (respects_accept _).bind_eq fun _ =>
    .ite (.pure rfl) (respects_peekKind.bind_eq fun _ => .ite (.pure rfl) (respects_refuse _))

theorem respects_nextItem (closing : TokenKind) {item : Production α}
    (respects : Respects view same item item)
    : Respects view (Option.Rel same) (nextItem closing item) (nextItem closing item) :=
  respects_peekKind.bind_eq fun _ =>
    .ite (.pure .none)
      (respects.bind fun _ _ agrees => (respects_itemEnd _).bind_eq fun _ =>
        .pure (.some agrees))

theorem respects_itemsUntil (closing : TokenKind) {item : Production α}
    (respects : Respects view same item item) (takes : Takes 1 item)
    : Respects view (List.Forall₂ same) (itemsUntil closing item takes)
        (itemsUntil closing item takes) :=
  ((respects_nextItem closing respects).repeated _ _).bind fun _ _ agree =>
    (respects_token _).bind fun _ _ _ => .pure agree

-----------------------------------------------------------------------------------------
-- Values and attributes
-----------------------------------------------------------------------------------------

theorem respects_listItem : Respects view (· = ·) listItem listItem :=
  respects_peekKind.bind_eq fun _ =>
    .ite ((respects_token _).bind fun _ _ alike => .pure alike.text)
      ((respects_nameWithArguments _).bind_eq fun _ => .pure rfl)

theorem respects_number : Respects view (· = ·) number number := by
  refine (respects_token _).bind fun literal literal' alike => ?_
  rw [alike.text]
  split
  · exact .pure rfl
  · exact fun _ _ _ => .error (.unreadableNumber alike)

theorem respects_value : Respects view (· = ·) value value := by
  refine respects_peekKind.bind_eq fun kind => ?_
  split
  · exact (respects_token _).bind fun _ _ alike => .pure (by rw [alike.text])
  · exact respects_number
  · exact (respects_token _).bind fun _ _ alike => .pure (by rw [alike.text])
  · refine (respects_token _).bind fun _ _ _ =>
      (respects_itemsUntil _ respects_listItem _).bind fun items items' agree => .pure ?_
    rw [List.forall₂_eq_eq_eq] at agree
    rw [agree]
  · exact (respects_nameWithArguments _).bind_eq fun _ => .pure rfl

theorem respects_argumentName
    : Respects view (Option.Rel (Token.Alike view)) argumentName argumentName := by
  rintro ⟨last, ts⟩ ⟨last', us⟩ ⟨previous, rest⟩
  cases rest with
  | nil => exact .ok .none ⟨previous, .nil⟩
  | cons name trails rest =>
      cases rest with
      | nil => exact .ok .none ⟨previous, .cons name trails .nil⟩
      | cons colon trails' rest =>
          simp only [argumentName, name.isWord, colon.kind]
          split
          · exact .ok (.some name) ⟨colon.span, rest⟩
          · exact .ok .none ⟨previous, .cons name trails (.cons colon trails' rest)⟩

theorem respects_peekSpan
    : Respects view (Option.Rel fun s t => view.left s = view.right t) peekSpan peekSpan := by
  rintro ⟨last, ts⟩ ⟨last', us⟩ ⟨previous, rest⟩
  cases rest with
  | nil => exact .ok .none ⟨previous, .nil⟩
  | cons alike trails rest => exact .ok (.some alike.span) ⟨previous, .cons alike trails rest⟩

theorem respects_argument
    : Respects view (view.Same Argument.mapSpan) argument argument := by
  refine respects_peekSpan.bind fun start start' sameStart =>
    respects_argumentName.bind fun name name' sameName => respects_value.bind_eq fun value =>
    respects_previous.bind fun last last' sameLast => .pure ?_
  have sameName' : (name.map Token.toIdent).map (Ident.mapSpan view.left)
      = (name'.map Token.toIdent).map (Ident.mapSpan view.right) := by
    rw [Option.map_map, Option.map_map]
    exact option_map_eq_of_rel sameName fun _ _ alike => alike.toIdent
  have sameFirst : view.left (start.getD last.span) = view.right (start'.getD last'.span) := by
    cases sameStart with
    | none => exact sameLast
    | some sameStart => exact sameStart
  simp only [SpanView.Same, Argument.mapSpan, sameName', view.merge_eq sameFirst sameLast]

theorem respects_arguments
    : Respects view (List.Forall₂ (view.Same Argument.mapSpan)) arguments arguments :=
  (respects_accept _).bind_eq fun _ =>
    .ite (respects_itemsUntil _ respects_argument _) (.pure .nil)

theorem respects_attributeBody
    : Respects view (view.Same Attribute.mapSpan) attributeBody attributeBody := by
  refine (respects_dottedName _).bind fun name name' sameName =>
    respects_arguments.bind fun arguments arguments' agree =>
    respects_previous.bind fun last last' sameLast => .pure ?_
  rw [SpanView.Same, Attribute.mapSpan, Attribute.mapSpan]
  simp only [sameName.eq, SpanView.Same.map agree, view.merge_eq sameName.span_eq sameLast]

theorem respects_nextAttribute
    : Respects view (Option.Rel (view.Same Attribute.mapSpan)) nextAttribute nextAttribute :=
  (respects_accept _).bind_eq fun _ =>
    .ite (respects_attributeBody.bind fun _ _ agrees => .pure (.some agrees)) (.pure .none)

theorem respects_attributes
    : Respects view (List.Forall₂ (view.Same Attribute.mapSpan)) attributes attributes :=
  respects_nextAttribute.repeated _ _

-----------------------------------------------------------------------------------------
-- Members
-----------------------------------------------------------------------------------------

theorem respects_fieldType : Respects view (· = ·) fieldType fieldType := by
  refine (respects_word _).bind fun name name' alike => respects_peekKind.bind_eq fun kind => ?_
  rw [alike.text]
  exact .ite
    ((respects_token _).bind fun _ _ _ => (respects_token _).bind fun _ _ text =>
      (respects_token _).bind fun _ _ _ => .pure (by rw [text.text]))
    (.pure rfl)

theorem respects_listMark : Respects view (· = ·) listMark listMark :=
  (respects_accept _).bind_eq fun _ =>
    .ite ((respects_token _).bind fun _ _ _ => .pure rfl) (.pure rfl)

section Members

variable {documentation documentation' : Option Documentation}
  (agree : Documentation.Agree view documentation documentation')

include agree

theorem respects_field
    : Respects view (view.Same Field.mapSpan) (field documentation) (field documentation') := by
  refine (respects_word _).bind fun name name' sameName => respects_fieldType.bind_eq fun type =>
    respects_listMark.bind_eq fun isList => (respects_accept _).bind_eq fun isOptional =>
    respects_attributes.bind fun attributes attributes' agreeAttributes =>
    respects_previous.bind fun last last' sameLast =>
    respects_trailingComment.bind fun comment comment' sameComment => .pure ?_
  have documented := Documentation.extend?_agree agree sameComment
  simp only [SpanView.Same, Field.mapSpan, sameName.toIdent.eq, SpanView.Same.map agreeAttributes,
    documented.eq, view.merge_eq sameName.span sameLast]

theorem respects_enumValue
    : Respects view (view.Same EnumValue.mapSpan) (enumValue documentation)
        (enumValue documentation') := by
  refine (respects_word _).bind fun name name' sameName =>
    respects_attributes.bind fun attributes attributes' agreeAttributes =>
    respects_trailingComment.bind fun comment comment' sameComment => .pure ?_
  have documented := Documentation.extend?_agree agree sameComment
  simp only [SpanView.Same, EnumValue.mapSpan, sameName.toIdent.eq,
    SpanView.Same.map agreeAttributes, documented.eq, sameName.span]

end Members

-----------------------------------------------------------------------------------------
-- Blocks and declarations
-----------------------------------------------------------------------------------------

section Blocks

variable {member : Option Documentation → Production α}
  (respects : ∀ documentation documentation',
    Documentation.Agree view documentation documentation'
      → Respects view same (member documentation) (member documentation'))

include respects

theorem respects_nextEntry (expected : Expectation)
    : Respects view (Option.Rel (Entry.Alike view same)) (nextEntry expected member)
        (nextEntry expected member) :=
  respects_leadingComments.bind fun _ _ comments => respects_peekKind.bind_eq fun _ =>
    .ite (.pure .none)
      (.ite
        ((respects_token _).bind fun _ _ _ => respects_attributeBody.bind fun _ _ agrees =>
          respects_trailingComment.bind fun _ _ _ => .pure (.some (.attribute agrees)))
        (.ite
          ((respects _ _ (Documentation.ofTokens?_agree comments)).bind fun _ _ agrees =>
            .pure (.some (.member agrees)))
          (respects_refuse _)))

theorem respects_block (keyword : TokenKind) (named expected : Expectation)
    (takes : ∀ documentation, Takes 1 (member documentation))
    : Respects view
        (fun x y => view.Same Ident.mapSpan x.1 y.1
          ∧ List.Forall₂ (Entry.Alike view same) x.2.1 y.2.1
          ∧ view.left x.2.2 = view.right y.2.2)
        (block keyword named expected member takes) (block keyword named expected member takes) :=
  (respects_token _).bind fun _ _ first => (respects_word _).bind fun _ _ name =>
    (respects_token _).bind fun _ _ _ => respects_trailingComment.bind fun _ _ _ =>
    ((respects_nextEntry respects _).repeated _ _).bind fun _ _ entries =>
    (respects_token _).bind fun _ _ last =>
      .pure ⟨name.toIdent, entries, view.merge_eq first.span last.span⟩

end Blocks

theorem entries_members_eq {mapSpan : (Span → Span) → α → α} {entries entries' : List (Entry α)}
    (alike : List.Forall₂ (Entry.Alike view (view.Same mapSpan)) entries entries')
    : (entries.filterMap Entry.member?).map (mapSpan view.left)
      = (entries'.filterMap Entry.member?).map (mapSpan view.right) := by
  rw [List.map_filterMap, List.map_filterMap]
  refine filterMap_eq_of_forall₂ alike fun _ _ alike => ?_
  rcases alike with ⟨agrees⟩ | ⟨-⟩
  · exact congrArg some agrees
  · rfl

theorem entries_attributes_eq {entries entries' : List (Entry α)}
    (alike : List.Forall₂ (Entry.Alike view same) entries entries')
    : (entries.filterMap Entry.attribute?).map (Attribute.mapSpan view.left)
      = (entries'.filterMap Entry.attribute?).map (Attribute.mapSpan view.right) := by
  rw [List.map_filterMap, List.map_filterMap]
  refine filterMap_eq_of_forall₂ alike fun _ _ alike => ?_
  rcases alike with ⟨-⟩ | ⟨agrees⟩
  · rfl
  · exact congrArg some agrees

section Declarations

variable {documentation documentation' : Option Documentation}
  (agree : Documentation.Agree view documentation documentation')

include agree

theorem respects_model
    : Respects view (view.Same Model.mapSpan) (model documentation) (model documentation') := by
  refine (respects_block (fun _ _ => respects_field) _ _ _ takes_field).bind fun x y agrees => ?_
  obtain ⟨name, entries, span⟩ := x
  obtain ⟨name', entries', span'⟩ := y
  obtain ⟨sameName, alike, sameSpan⟩ := agrees
  refine .pure ?_
  simp only [SpanView.Same, Model.mapSpan, sameName.eq, entries_members_eq alike,
    entries_attributes_eq alike, agree.eq, sameSpan]

theorem respects_enum
    : Respects view (view.Same Enum.mapSpan) (enum documentation) (enum documentation') := by
  refine (respects_block (fun _ _ => respects_enumValue) _ _ _ takes_enumValue).bind
    fun x y agrees => ?_
  obtain ⟨name, entries, span⟩ := x
  obtain ⟨name', entries', span'⟩ := y
  obtain ⟨sameName, alike, sameSpan⟩ := agrees
  refine .pure ?_
  simp only [SpanView.Same, Enum.mapSpan, sameName.eq, entries_members_eq alike,
    entries_attributes_eq alike, agree.eq, sameSpan]

end Declarations

theorem respects_ignoredBlock (keyword : TokenKind)
    : Respects view (· = ·) (ignoredBlock keyword) (ignoredBlock keyword) :=
  (respects_token _).bind fun _ _ _ => (respects_word _).bind fun _ _ _ => respects_group _ _

/-- A declaration is read alike even where its first comment trails a token in one list only. -/
theorem nextDeclaration_alike {c d : Cursor} (alike : c.AlikeAhead view d)
    : EndAlike view (Option.Rel (Declaration.Alike view)) (nextDeclaration c)
        (nextDeclaration d) := by
  refine (leadingComments_alike alike).bind fun comments comments' sameComments =>
    respects_peekKind.bind_eq fun kind => ?_
  have agree := Documentation.ofTokens?_agree sameComments
  split
  · exact .pure .none
  · exact (respects_model agree).bind fun _ _ agrees => .pure (.some (.model agrees))
  · exact (respects_enum agree).bind fun _ _ agrees => .pure (.some (.enum agrees))
  · exact (respects_ignoredBlock _).bind fun _ _ _ => .pure (.some .ignored)
  · exact (respects_ignoredBlock _).bind fun _ _ _ => .pure (.some .ignored)
  · exact respects_refuse _

theorem declarations_alike {c d : Cursor} (alike : c.AlikeAhead view d)
    : EndAlike view (List.Forall₂ (Declaration.Alike view)) (declarations c) (declarations d) :=
  repeated_alike _ _ (fun _ _ => Cursor.Alike.ahead) (fun _ _ => nextDeclaration_alike) alike

end Production

/-- Declarations that agree one by one make up schemas that agree. -/
theorem Schema.ofDeclarations_same {ds ds' : List Declaration}
    (alike : List.Forall₂ (Declaration.Alike view) ds ds')
    : view.Same Schema.mapSpan (ofDeclarations ds) (ofDeclarations ds') := by
  have models : (ds.filterMap Declaration.model?).map (Model.mapSpan view.left)
      = (ds'.filterMap Declaration.model?).map (Model.mapSpan view.right) := by
    rw [List.map_filterMap, List.map_filterMap]
    refine filterMap_eq_of_forall₂ alike fun _ _ alike => ?_
    cases alike with
    | model agrees => exact congrArg some agrees
    | enum | ignored => rfl
  have enums : (ds.filterMap Declaration.enum?).map (Enum.mapSpan view.left)
      = (ds'.filterMap Declaration.enum?).map (Enum.mapSpan view.right) := by
    rw [List.map_filterMap, List.map_filterMap]
    refine filterMap_eq_of_forall₂ alike fun _ _ alike => ?_
    cases alike with
    | enum agrees => exact congrArg some agrees
    | model | ignored => rfl
  simp only [SpanView.Same, mapSpan, ofDeclarations, models, enums]

end SchemaDoc
