import SchemaDoc.Proofs.Grammar.Entries
import SchemaDoc.Proofs.Schema.Names

/-! Names are tokens, and any other word may stand in their place.
There is one rule for each construct of the grammar: where a derivation gives a name, one of the
tokens is a word with this text, and with another word in its place the same derivation gives the
other name.
-/

namespace SchemaDoc.Grammar

open Production (Member)

-----------------------------------------------------------------------------------------
-- Words in the place of others
-----------------------------------------------------------------------------------------

theorem elim_span_eq {x y : Option Token} (same : x.map Token.span = y.map Token.span)
    : x.elim .none Token.span = y.elim .none Token.span := by
  cases x <;> cases y <;> simp_all

/-- A word in the place of another. -/
structure TakesPlace (token other : Token) : Prop where
  wasWord : token.isWord = true
  isWord : other.isWord = true
  span : other.span = token.span
  line : other.line = token.line

/-- Tokens that are the same as others, but for words in the place of words. -/
def SamePlaces (tokens others : List Token) : Prop :=
  List.Forall₂ (fun token other => token = other ∨ TakesPlace token other) tokens others

namespace SamePlaces

variable {tokens others : List Token}

theorem refl (tokens : List Token) : SamePlaces tokens tokens :=
  List.forall₂_same.mpr fun _ _ => .inl rfl

theorem around (same : SamePlaces tokens others) (front back : List Token)
    : SamePlaces (front ++ (tokens ++ back)) (front ++ (others ++ back)) :=
  List.rel_append (refl front) (List.rel_append same (refl back))

theorem inFront (same : SamePlaces tokens others) (back : List Token)
    : SamePlaces (tokens ++ back) (others ++ back) :=
  List.rel_append same (refl back)

theorem behind (same : SamePlaces tokens others) (front : List Token)
    : SamePlaces (front ++ tokens) (front ++ others) :=
  List.rel_append (refl front) same

theorem of_takesPlace {token other : Token} (takes : TakesPlace token other)
    (front back : List Token)
    : SamePlaces (front ++ token :: back) (front ++ other :: back) :=
  List.rel_append (refl front) (.cons (.inr takes) (refl back))

variable (same : SamePlaces tokens others)

include same

theorem map_span : tokens.map Token.span = others.map Token.span :=
  map_eq_of_forall₂ same fun _ _ related => related.elim (congrArg Token.span) (·.span.symm)

theorem lastSpan_eq : lastSpan others = lastSpan tokens := by
  have last := congrArg List.getLast? same.map_span
  rw [List.getLast?_map, List.getLast?_map] at last
  exact (elim_span_eq last).symm

theorem fullSpan_eq : fullSpan others = fullSpan tokens := by
  have first := congrArg List.head? same.map_span
  rw [List.head?_map, List.head?_map] at first
  rw [fullSpan, fullSpan, same.lastSpan_eq, elim_span_eq first]

theorem exists_last {last : Token} (isLast : tokens.getLast? = some last)
    : ∃ last', others.getLast? = some last' ∧ last'.line = last.line := by
  have lines : tokens.map Token.line = others.map Token.line :=
    map_eq_of_forall₂ same fun _ _ related => related.elim (congrArg Token.line) (·.line.symm)
  have last := congrArg List.getLast? lines
  rw [List.getLast?_map, List.getLast?_map, isLast] at last
  exact Option.map_eq_some_iff.mp last.symm

/-- A word is no comment, so the same comment trails the token in front. -/
theorem trailing?_eq (previous : Token)
    : trailing? previous others = trailing? previous tokens := by
  cases same with
  | nil => rfl
  | cons related _ =>
      rcases related with rfl | takes
      · rfl
      · have none {token : Token} (isWord : token.isWord = true) (behind : List Token)
            : trailing? previous (token :: behind) = .none :=
          trailing?_eq_none fun _ isHead =>
            Option.some.inj isHead ▸ Token.kind_ne_of_isWord isWord rfl
        rw [none takes.isWord, none takes.wasWord]

end SamePlaces

/-- A name is the text of one of the tokens, and with another word in its place the other name is
given.
-/
inductive Named {α : Type} (part : List Token → α → Prop) (renamed : String → α)
  : List Token → String → Prop
  | mk {front token back} (isWord : token.isWord = true)
    (replace
      : ∀ other, TakesPlace token other → part (front ++ other :: back) (renamed other.text))
    : Named part renamed (front ++ token :: back) token.text

/-- Words without dots. -/
def NoDots (tokens : List Token) : Prop :=
  ∀ token ∈ tokens, token.isWord = true → '.' ∉ token.text.toList

/-- In what is derived, a name that is looked up is a token, and is changed with it. -/
def Renames {α : Type} (part : List Token → α → Prop) (get : α → Option String)
    (rename : String → α → α)
    : Prop :=
  ∀ {tokens x text},
    part tokens x
    → NoDots tokens
    → get x = some text
    → Named part (fun name => rename name x) tokens text

section Rules

variable {α β : Type} {part : List Token → α → Prop} {whole : List Token → β → Prop}
  {get : α → Option String} {rename : String → α → α}

theorem NoDots.subset {tokens inner : List Token} (noDots : NoDots tokens)
    (isInside : inner ⊆ tokens)
    : NoDots inner :=
  fun token isMember => noDots token (isInside isMember)

/-- A name of a part is a name of the whole. -/
theorem Named.lift {f : String → α} {g : String → β} {inner : List Token} {text : String}
    (named : Named part f inner text) (front back : List Token)
    (step
      : ∀ others name,
          SamePlaces inner others
          → part others (f name)
          → whole (front ++ (others ++ back)) (g name))
    : Named whole g (front ++ (inner ++ back)) text := by
  obtain @⟨before, token, behind, isWord, replace⟩ := named
  have split (other : Token)
      : front ++ ((before ++ other :: behind) ++ back)
        = (front ++ before) ++ other :: (behind ++ back) := by
    simp
  rw [split]
  refine .mk isWord fun other takes => ?_
  rw [← split]
  exact step _ _ (.of_takesPlace takes before behind) (replace other takes)

theorem Named.inFront {f : String → α} {g : String → β} {inner : List Token} {text : String}
    (named : Named part f inner text) (back : List Token)
    (step
      : ∀ others name,
          SamePlaces inner others
          → part others (f name)
          → whole (others ++ back) (g name))
    : Named whole g (inner ++ back) text :=
  named.lift [] back step

theorem Named.behind {f : String → α} {g : String → β} {inner : List Token} {text : String}
    (named : Named part f inner text) (front : List Token)
    (step
      : ∀ others name,
          SamePlaces inner others
          → part others (f name)
          → whole (front ++ others) (g name))
    : Named whole g (front ++ inner) text := by
  rw [← List.append_nil inner]
  refine named.lift front [] fun others name same isPart => ?_
  rw [List.append_nil]
  exact step others name same isPart

theorem Named.imp {f : String → α} {g : String → β} {tokens : List Token} {text : String}
    (named : Named part f tokens text)
    (step : ∀ others name, SamePlaces tokens others → part others (f name) → whole others (g name))
    : Named whole g tokens text :=
  named.behind [] step

/-- The first of the tokens is a name. -/
theorem Named.head {f : String → α} {token : Token} {back : List Token}
    (isWord : token.isWord = true)
    (replace : ∀ other, TakesPlace token other → part (other :: back) (f other.text))
    : Named part f (token :: back) token.text :=
  @Named.mk _ part f [] token back isWord replace

theorem Renames.sequence (renames : Renames part get rename) (i : Nat)
    : Renames (Sequence part) (fun xs => xs[i]?.bind get)
        (fun name xs => xs.modify i (rename name)) := by
  intro tokens xs text areParts noDots found
  induction areParts generalizing i with
  | nil => simp at found
  | @cons tokens rest x xs head tail ih =>
      cases i with
      | zero =>
          have named := renames head (noDots.subset (List.subset_append_left tokens rest)) found
          exact named.inFront rest fun others name _ isPart => .cons isPart tail
      | succ i =>
          have named := ih i (noDots.subset (List.subset_append_right tokens rest)) found
          exact named.behind tokens fun others name _ areParts => .cons head areParts

theorem Renames.separated (renames : Renames part get rename) (i : Nat)
    : Renames (Separated part) (fun xs => xs[i]?.bind get)
        (fun name xs => xs.modify i (rename name)) := by
  intro tokens xs text areItems noDots found
  induction areItems generalizing i with
  | nil => simp at found
  | @last tokens x head =>
      cases i with
      | zero => exact (renames head noDots found).imp fun others name _ isPart => .last isPart
      | succ i => simp at found
  | @cons tokens rest x xs comma head isComma tail ih =>
      cases i with
      | zero =>
          have named := renames head (noDots.subset (List.subset_append_left tokens _)) found
          exact named.inFront (comma :: rest) fun others name _ isPart =>
            .cons isPart isComma tail
      | succ i =>
          have isInside : rest ⊆ tokens ++ comma :: rest := fun _ isMember => by simp [isMember]
          have named := ih i (noDots.subset isInside) found
          rw [List.append_cons]
          refine named.behind (tokens ++ [comma]) fun others name _ areItems => ?_
          rw [← List.append_cons]
          exact .cons head isComma areItems

theorem Renames.marked (renames : Renames part get rename) (mark : TokenKind)
    : Renames (Marked mark part) get rename := by
  rintro _ x text @⟨token, tokens, _, isMark, isPart⟩ noDots found
  have named := renames isPart (noDots.subset (List.subset_cons_self token tokens)) found
  exact named.behind [token] fun others name _ isPart => .mk isMark isPart

end Rules

-----------------------------------------------------------------------------------------
-- Attributes
-----------------------------------------------------------------------------------------

theorem toIdent_of_takesPlace {token other : Token} (takes : TakesPlace token other)
    : other.toIdent = token.toIdent.rename other.text := by
  rw [Token.toIdent, Token.toIdent, Ident.rename, takes.span]

theorem intercalate_concat {parts : List (List Char)} (notNil : parts ≠ []) (last : List Char)
    : ['.'].intercalate (parts ++ [last]) = ['.'].intercalate parts ++ '.' :: last := by
  induction parts with
  | nil => contradiction
  | cons first parts ih =>
      cases parts with
      | nil => simp [List.intercalate_cons_cons]
      | cons second parts =>
          rw [List.cons_append, List.cons_append, List.intercalate_cons_cons, ← List.cons_append,
            ih (by simp), List.intercalate_cons_cons]
          simp

/-- One more part behind a name is one more segment of it. -/
theorem segments_extendName (name : Ident) {segment : Token} (noDot : '.' ∉ segment.text.toList)
    : (Production.extendName name segment).segments = name.segments ++ [segment.text.toList] := by
  have spelled : (Production.extendName name segment).name.toList
      = name.name.toList ++ '.' :: segment.text.toList := by
    simp [Production.extendName]
  rw [Ident.segments, spelled, List.splitOn_append_cons_self, List.splitOn_eq_singleton noDot]
  rfl

theorem extendName_eq (name : Ident) (segment : Token)
    : Production.extendName name segment
      = ⟨String.ofList (['.'].intercalate (name.segments ++ [segment.text.toList])),
          name.span.merge segment.span⟩ := by
  rw [Ident.segments, intercalate_concat (List.splitOn_ne_nil _ _), List.intercalate_splitOn]
  simp [Production.extendName, ← String.toList_inj]

/-- Of an extended name, a segment in front of the last is one of the name that was extended. -/
theorem renameSegment_extendName_of_lt {name : Ident} {segment : Token} {i : Nat}
    (noDot : '.' ∉ segment.text.toList) (isFront : i < name.segments.length) (text : String)
    : (Production.extendName name segment).renameSegment i text
      = Production.extendName (name.renameSegment i text) segment := by
  have notNil : name.segments.set i text.toList ≠ [] := by
    simp [List.set_eq_nil_iff, Ident.segments]
  rw [Ident.renameSegment, Ident.rename, segments_extendName name noDot,
    List.set_append_left _ _ isFront, intercalate_concat notNil]
  simp [Production.extendName, Ident.renameSegment, Ident.rename, ← String.toList_inj]

/-- The last segment of an extended name is the token behind. -/
theorem renameSegment_extendName_last {name : Ident} {segment other : Token}
    (noDot : '.' ∉ segment.text.toList) (takes : TakesPlace segment other)
    : (Production.extendName name segment).renameSegment name.segments.length other.text
      = Production.extendName name other := by
  rw [Ident.renameSegment, Ident.rename, segments_extendName name noDot, extendName_eq name other,
    takes.span]
  simp [Production.extendName]

theorem renames_name (i : Nat)
    : Renames Name (fun name => name.segments[i]?.map String.ofList) (Ident.renameSegment i) := by
  intro tokens name text isName noDots found
  dsimp only at found
  induction isName generalizing i with
  | @word token isWord =>
      have noDot := noDots token List.mem_cons_self isWord
      have only : token.toIdent.segments = [token.text.toList] := List.splitOn_eq_singleton noDot
      rw [only] at found
      cases i with
      | succ i => simp at found
      | zero =>
          obtain rfl : token.text = text := by simpa using found
          refine .head isWord fun other takes => ?_
          have renamed : token.toIdent.renameSegment 0 other.text = other.toIdent := by
            rw [toIdent_of_takesPlace takes, Ident.renameSegment, only]
            simp
          rw [renamed]
          exact .word takes.isWord
  | @dotted tokens name dot segment front isDot isWord ih =>
      have noDot := noDots segment (by simp) isWord
      have segments := segments_extendName name noDot
      rw [segments] at found
      rcases Nat.lt_trichotomy i name.segments.length with isFront | rfl | isBehind
      · rw [List.getElem?_append_left isFront] at found
        have named := ih i (noDots.subset (List.subset_append_left _ _)) found
        refine named.inFront [dot, segment] fun others text same isName => ?_
        rw [renameSegment_extendName_of_lt noDot isFront]
        exact .dotted isName isDot isWord
      · obtain rfl : segment.text = text := by simpa using found
        have split (last : Token) : tokens ++ [dot, last] = (tokens ++ [dot]) ++ last :: [] := by
          simp
        rw [split]
        refine .mk isWord fun other takes => ?_
        rw [← split, renameSegment_extendName_last noDot takes]
        exact .dotted front isDot takes.isWord
      · have noSegment : (name.segments ++ [segment.text.toList])[i]? = none :=
          List.getElem?_eq_none (by rw [List.length_append, List.length_singleton]; omega)
        simp [noSegment] at found

theorem renames_argument
    : Renames Argument (·.name.map Ident.name) Argument.rename := by
  intro tokens argument text isArgument noDots found
  cases isArgument with
  | positional => simp at found
  | @named name colon tokens value isWord isColon isValue =>
      obtain rfl : name.text = text := Option.some.inj found
      refine .head isWord fun other takes => ?_
      have places := SamePlaces.of_takesPlace takes [] (colon :: tokens)
      rw [List.nil_append, List.nil_append] at places
      have isArgument := Argument.named takes.isWord isColon isValue
      rw [places.fullSpan_eq, toIdent_of_takesPlace takes] at isArgument
      exact isArgument

theorem renames_arguments (i : Nat)
    : Renames Arguments (fun arguments => arguments[i]?.bind (·.name.map Ident.name))
        (fun text arguments => arguments.modify i (Argument.rename text)) := by
  intro tokens arguments text areArguments noDots found
  cases areArguments with
  | absent => simp at found
  | @present first last tokens _ opens items closes =>
      have isInside : tokens ⊆ first :: tokens ++ [last] := fun _ isMember => by simp [isMember]
      have named := renames_argument.separated i items (noDots.subset isInside) found
      exact named.lift [first] [last] fun others name _ items => .present opens items closes

theorem renames_attribute (slot : AttributeSlot)
    : Renames Attribute (·.nameAt slot) (fun text a => a.rename slot text) := by
  rintro _ _ text @⟨front, back, name, arguments, isName, areArguments⟩ noDots found
  cases slot with
  | segment i =>
      have named := renames_name i isName (noDots.subset (List.subset_append_left front back)) found
      refine named.inFront back fun others text same isName => ?_
      have isAttribute := Attribute.mk isName areArguments
      rw [(same.inFront back).lastSpan_eq] at isAttribute
      exact isAttribute
  | argument i =>
      have named := renames_arguments i areArguments
        (noDots.subset (List.subset_append_right front back)) found
      refine named.behind front fun others text same areArguments => ?_
      have isAttribute := Attribute.mk isName areArguments
      rw [(same.behind front).lastSpan_eq] at isAttribute
      exact isAttribute

theorem renames_attributes (mark : TokenKind) (i : Nat) (slot : AttributeSlot)
    : Renames (Sequence (Marked mark Attribute)) (attributeNameAt · i slot)
        (fun text attributes => renameAttribute attributes i slot text) :=
  Renames.sequence (Renames.marked (renames_attribute slot) mark) i

-----------------------------------------------------------------------------------------
-- Members of blocks
-----------------------------------------------------------------------------------------

theorem renames_typeName
    : Renames TypeName FieldType.writtenName? (fun text _ => .ofName text) := by
  intro tokens type text isType noDots found
  cases isType with
  | @name token isWord =>
      rw [FieldType.writtenName?_ofName] at found
      obtain rfl : token.text = text := Option.some.inj found
      exact .head isWord fun other takes => .name takes.isWord
  | unsupported => simp [FieldType.writtenName?] at found

theorem Field.of_samePlaces {word : Token} {types lists marks back tokens others : List Token}
    {type : FieldType} {isList isOptional : Bool} {attributes : List SchemaDoc.Attribute}
    (isWord : word.isWord = true) (isType : TypeName types type)
    (isListMark : ListMark lists isList) (isOptionalMark : OptionalMark marks isOptional)
    (areAttributes : Sequence (Marked .atSign Attribute) back attributes)
    (split : others = word :: (types ++ (lists ++ (marks ++ back))))
    (same : SamePlaces tokens others)
    : Field others
        { name := word.toIdent
          type, isList, isOptional, attributes
          documentation := none
          span := fullSpan tokens } :=
  same.fullSpan_eq ▸ .mk isWord isType isListMark isOptionalMark areAttributes split

theorem renames_field (slot : MemberSlot)
    : Renames Field (·.nameAt slot) (fun text field => field.rename slot text) := by
  rintro _ _ text @⟨word, types, lists, marks, back, type, isList, isOptional, attributes, _,
    isWord, isType, isListMark, isOptionalMark, areAttributes, rfl⟩ noDots found
  cases slot with
  | name =>
      obtain rfl : word.text = text := Option.some.inj found
      refine .head isWord fun other takes => ?_
      have isField := Field.of_samePlaces takes.isWord isType isListMark isOptionalMark
        areAttributes rfl (.of_takesPlace takes [] _)
      rw [toIdent_of_takesPlace takes] at isField
      exact isField
  | type =>
      have isInside : types ⊆ word :: (types ++ (lists ++ (marks ++ back))) :=
        fun _ isMember => by simp [isMember]
      have named := renames_typeName isType (noDots.subset isInside) found
      refine named.lift [word] (lists ++ (marks ++ back)) fun others text same isType => ?_
      exact .of_samePlaces isWord isType isListMark isOptionalMark areAttributes rfl
        (same.around [word] _)
  | attributes i slot =>
      have isInside : back ⊆ word :: (types ++ (lists ++ (marks ++ back))) :=
        fun _ isMember => by simp [isMember]
      have named := renames_attributes _ i slot areAttributes (noDots.subset isInside) found
      have split (back : List Token)
          : word :: (types ++ (lists ++ (marks ++ back)))
            = (word :: (types ++ (lists ++ marks))) ++ back := by
        simp
      rw [split]
      refine named.behind _ fun others text same areAttributes => ?_
      exact .of_samePlaces isWord isType isListMark isOptionalMark areAttributes (split others).symm
        (same.behind _)

theorem renames_enumValue (slot : MemberSlot)
    : Renames EnumValue (·.nameAt slot) (fun text value => value.rename slot text) := by
  rintro _ _ text @⟨word, back, attributes, isWord, areAttributes⟩ noDots found
  cases slot with
  | name =>
      obtain rfl : word.text = text := Option.some.inj found
      refine .head isWord fun other takes => ?_
      have isValue := EnumValue.mk takes.isWord areAttributes
      rw [takes.span, toIdent_of_takesPlace takes] at isValue
      exact isValue
  | type => simp [EnumValue.nameAt] at found
  | attributes i slot =>
      have named := renames_attributes _ i slot areAttributes
        (noDots.subset (List.subset_cons_self word back)) found
      exact named.behind [word] fun others text same areAttributes => .mk isWord areAttributes

end SchemaDoc.Grammar
