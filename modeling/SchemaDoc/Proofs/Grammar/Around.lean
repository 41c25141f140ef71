import Mathlib.Data.List.DropRight
import Mathlib.Data.List.Perm.Subperm
import SchemaDoc.Proofs.Grammar.Occurrence

/-! Which comments belong to what, said by places in the token list.
A run of comments is found in front of the place where something begins, and a comment behind the
place where it ends. A schema keeps both places of everything that can be documented.
-/

namespace SchemaDoc

open Grammar

-----------------------------------------------------------------------------------------
-- Comments around places
-----------------------------------------------------------------------------------------

namespace Token

/-- Tokens that follow one another, of which none but the last may be empty. -/
structure Ordered (tokens : List Token) : Prop where
  pairwise : tokens.Pairwise fun a b => a.span.start < a.span.stop ∧ a.span.stop ≤ b.span.start
  proper : ∀ token ∈ tokens, token.span.start ≤ token.span.stop

/-- Whether a token is a documentation comment. -/
def isDocComment (token : Token) : Bool := token.kind = .docComment

/-- The tokens that begin in front of an offset. -/
def before (tokens : List Token) (offset : Nat) : List Token :=
  tokens.takeWhile (·.span.start < offset)

/-- The comments at the end of some tokens. -/
def lastRun (tokens : List Token) : List Token := tokens.rtakeWhile isDocComment

/-- The comments at the end of some tokens, without a first one on the line of the token in front
of them.
-/
def leadingRun (tokens : List Token) : List Token :=
  match (tokens.rdropWhile isDocComment).getLast? with
  | some previous => leading previous (lastRun tokens)
  | none => lastRun tokens

/-- The comment directly behind the token that ends at an offset, if it is on its line. -/
def trailingAt? (tokens : List Token) (offset : Nat) : Option Token :=
  match tokens.dropWhile (·.span.stop < offset) with
  | last :: rest => trailing? last rest
  | [] => none

theorem Ordered.sublist {fewer tokens : List Token} (ordered : Ordered tokens)
    (isSublist : fewer.Sublist tokens)
    : Ordered fewer :=
  ⟨ordered.pairwise.sublist isSublist, fun token isMember =>
    ordered.proper token (isSublist.mem isMember)⟩

theorem Ordered.nodup {tokens : List Token} (ordered : Ordered tokens) : tokens.Nodup := by
  refine ordered.pairwise.imp fun {a b} isBefore same => ?_
  subst same
  omega

/-- A token stands at one place. -/
theorem Ordered.split_unique {tokens front back front' back' : List Token} {c : Token}
    (ordered : Ordered tokens) (split : tokens = front ++ c :: back)
    (split' : tokens = front' ++ c :: back')
    : front = front' ∧ back = back' := by
  have nodup := ordered.nodup
  rw [split] at nodup
  obtain ⟨-, behind, apart⟩ := List.nodup_append.mp nodup
  have notInFront : c ∉ front := fun isMember => apart c isMember c List.mem_cons_self rfl
  have notBehind : c ∉ back := (List.nodup_cons.mp behind).1
  obtain ⟨inFront, -, isBehind⟩ :=
    (List.append_cons_inj_of_notMem notInFront notBehind).mp (split.symm.trans split')
  exact ⟨inFront, isBehind⟩

/-- Only the end of the input is empty. -/
theorem ordered_tokenize (text : String) : Ordered (significant (tokenize text)) := by
  obtain ⟨front, split, proper⟩ := (scans_tokenize text).ending_eq
  have apart := (scans_tokenize text).ordered
  rw [split] at apart
  obtain ⟨inFront, -, atEnd⟩ := List.pairwise_append.mp apart
  have whole : Ordered (tokenize text) := by
    rw [split]
    constructor
    · refine List.pairwise_append.mpr ⟨?_, List.pairwise_singleton _ _, ?_⟩
      · exact inFront.imp_of_mem fun isMember _ isBefore => ⟨(proper _ isMember).2, isBefore⟩
      · exact fun token isMember last isLast =>
          ⟨(proper token isMember).2, atEnd token isMember last isLast⟩
    · intro token isMember
      rcases List.mem_append.mp isMember with isBefore | isLast
      · exact Nat.le_of_lt (proper token isBefore).2
      · obtain rfl := List.mem_singleton.mp isLast
        exact Nat.le_refl _
  exact whole.sublist List.filter_sublist

theorem Ordered.before_eq {front back : List Token} {first : Token}
    (ordered : Ordered (front ++ first :: back))
    : before (front ++ first :: back) first.span.start = front := by
  have inFront : ∀ token ∈ front, token.span.start < first.span.start := by
    intro token isMember
    have isBefore := (List.pairwise_append.mp ordered.pairwise).2.2 token isMember first
      List.mem_cons_self
    omega
  rw [before, List.takeWhile_append_of_pos (by simpa using inFront),
    List.takeWhile_cons_of_neg (by simp), List.append_nil]

theorem Ordered.trailingAt?_eq {front back : List Token} {last : Token}
    (ordered : Ordered (front ++ last :: back)) (notAtEnd : back ≠ [])
    : trailingAt? (front ++ last :: back) last.span.stop = trailing? last back := by
  obtain ⟨-, behind, apart⟩ := List.pairwise_append.mp ordered.pairwise
  obtain ⟨next, rest, rfl⟩ := List.exists_cons_of_ne_nil notAtEnd
  have longer := (List.pairwise_cons.mp behind).1 next List.mem_cons_self
  have inFront : ∀ token ∈ front, token.span.stop < last.span.stop := by
    intro token isMember
    have isBefore := apart token isMember last List.mem_cons_self
    omega
  rw [trailingAt?, List.dropWhile_append_of_pos (by simpa using inFront),
    List.dropWhile_cons_of_neg (by simp)]

/-- Comments at the end of tokens are cut off there, by induction from the end. -/
theorem cut_append {front comments : List Token}
    (ends : ∀ last ∈ front.getLast?, last.kind ≠ .docComment)
    (areComments : ∀ c ∈ comments, c.kind = .docComment)
    : (front ++ comments).rdropWhile isDocComment = front
      ∧ lastRun (front ++ comments) = comments := by
  induction comments using List.reverseRecOn with
  | nil =>
      have stops (notNil : front ≠ []) : ¬isDocComment (front.getLast notNil) = true := by
        simpa [isDocComment] using ends _ (List.getLast?_eq_some_getLast notNil)
      rw [List.append_nil]
      exact ⟨List.rdropWhile_eq_self_iff.mpr stops, List.rtakeWhile_eq_nil_iff.mpr stops⟩
  | append_singleton comments c ih =>
      have isComment : isDocComment c = true := by
        simpa [isDocComment] using areComments c (by simp)
      obtain ⟨cut, run⟩ := ih fun other isMember => areComments other (by simp [isMember])
      rw [← List.append_assoc, List.rdropWhile_concat_pos _ _ _ isComment, lastRun,
        List.rtakeWhile_concat_pos _ _ _ isComment, ← lastRun, run]
      exact ⟨cut, rfl⟩

theorem leadingRun_append {front comments : List Token} {previous : Token}
    (isPrevious : previous.kind ≠ .docComment)
    (areComments : ∀ c ∈ comments, c.kind = .docComment)
    : leadingRun (front ++ previous :: comments) = leading previous comments := by
  have split : front ++ previous :: comments = (front ++ [previous]) ++ comments := by simp
  obtain ⟨cut, run⟩ := @cut_append (front ++ [previous]) comments
    (by simpa using isPrevious) areComments
  rw [split, leadingRun, cut, run, List.getLast?_concat]

/-- No token ends behind the last one. -/
theorem Ordered.stop_le {tokens : List Token} {token last : Token} (ordered : Ordered tokens)
    (isLast : tokens.getLast? = some last) (isMember : token ∈ tokens)
    : token.span.stop ≤ last.span.stop := by
  obtain ⟨front, rfl⟩ := List.getLast?_eq_some_iff.mp isLast
  have proper := ordered.proper last (by simp)
  rcases List.mem_append.mp isMember with inFront | isLast
  · have isBefore := (List.pairwise_append.mp ordered.pairwise).2.2 token inFront last
      List.mem_cons_self
    omega
  · obtain rfl := List.mem_singleton.mp isLast
    exact Nat.le_refl _

/-- Tokens reach from the start of the first to the end of the last. -/
theorem Ordered.fullSpan_eq {first last : Token} {rest : List Token}
    (ordered : Ordered (first :: rest)) (isLast : (first :: rest).getLast? = some last)
    : fullSpan (first :: rest) = ⟨first.span.start, last.span.stop⟩ := by
  have stops := ordered.stop_le isLast List.mem_cons_self
  have starts : first.span.start ≤ last.span.start := by
    have proper := ordered.proper first List.mem_cons_self
    rcases List.mem_cons.mp (List.mem_of_getLast? isLast) with rfl | isBehind
    · exact Nat.le_refl _
    · have isBefore := (List.pairwise_cons.mp ordered.pairwise).1 last isBehind
      omega
  rw [fullSpan, lastSpan, isLast]
  exact congrArg₂ Span.mk (Nat.min_eq_left starts) (Nat.max_eq_right stops)

end Token

-----------------------------------------------------------------------------------------
-- What can be documented, by its place
-----------------------------------------------------------------------------------------

/-- Something that comments can document, and where it begins. A member of a block also shows
where it ends, since a comment on the line there belongs to it.
-/
structure DocNode where
  documentation : Option Documentation
  start : Nat
  stop? : Option Nat

/-- The comments that belong to something: those in front of it, of which the first may belong to
what is before, and the one that trails it.
-/
def DocNode.comments (tokens : List Token) (node : DocNode) : List Token :=
  let front := Token.before tokens node.start
  match node.stop? with
  | some stop => Token.leadingRun front ++ (Token.trailingAt? tokens stop).toList
  | none => Token.lastRun front

/-- A field ends where its range does. -/
def Field.node (field : Field) : DocNode :=
  ⟨field.documentation, field.span.start, some field.span.stop⟩

/-- A value of an enum ends where the last of its attributes does, if it has any. -/
def EnumValue.node (value : EnumValue) : DocNode :=
  ⟨value.documentation, value.span.start,
    some (value.attributes.getLast?.elim value.span Attribute.span).stop⟩

/-- A model begins with its keyword. -/
def Model.node (model : Model) : DocNode := ⟨model.documentation, model.span.start, none⟩

/-- An enum begins with its keyword. -/
def Enum.node (enum : Enum) : DocNode := ⟨enum.documentation, enum.span.start, none⟩

/-- A model and its fields. -/
def Model.nodes (model : Model) : List DocNode := model.node :: model.fields.map Field.node

/-- An enum and its values. -/
def Enum.nodes (enum : Enum) : List DocNode := enum.node :: enum.values.map EnumValue.node

/-- The text that comments make up, if there are any. -/
def joined? (comments : List Token) : Option String :=
  if comments.isEmpty then none else some ("\n".intercalate (comments.map Token.text))

theorem intercalate_concat (separator first last : String) (texts : List String)
    : separator.intercalate (first :: texts ++ [last])
      = separator.intercalate (first :: texts) ++ separator ++ last := by
  induction texts generalizing first with
  | nil =>
      rw [List.cons_append, List.nil_append, String.intercalate_cons_cons,
        String.intercalate_singleton, String.intercalate_singleton]
  | cons next texts ih =>
      rw [List.cons_append, List.cons_append, String.intercalate_cons_cons, ← List.cons_append,
        ih, String.intercalate_cons_cons]
      simp only [String.append_assoc]

/-- Comments in front and a trailing one make up one text. -/
theorem Documentation.text_extend? (comments : List Token) (comment? : Option Token)
    : (extend? (ofTokens? comments) comment?).map Documentation.text
      = joined? (comments ++ comment?.toList) := by
  cases comments with
  | nil =>
      cases comment? with
      | none => rfl
      | some comment => simp [extend?, ofTokens?, joined?]
  | cons first others =>
      cases comment? with
      | none => simp [extend?, ofTokens?, joined?]
      | some comment =>
          have joins := intercalate_concat "\n" first.text comment.text (others.map Token.text)
          simpa [extend?, ofTokens?, joined?] using joins.symm

end SchemaDoc
