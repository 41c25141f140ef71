import SchemaDoc.Proofs.Token.Scanning
import SchemaDoc.Schema.Reader

/-! Ranges of a text one behind the other, and tokens that lie in a text like that.
A stretch of tokens is bounded by two offsets, and it splits at an offset wherever it splits as a
list. Whatever is said of it can so be said of its parts.
-/

namespace SchemaDoc

open String (utf8Len)

-----------------------------------------------------------------------------------------
-- Ranges of a text
-----------------------------------------------------------------------------------------

/-- An offset between two characters of a text, in front of all, or behind all. -/
def IsBoundary (text : String) (offset : Nat) : Prop :=
  ∃ before after, text.toList = before ++ after ∧ offset = utf8Len before

theorem IsBoundary.le_size {text : String} {offset : Nat} (isBoundary : IsBoundary text offset)
    : offset ≤ text.utf8ByteSize := by
  obtain ⟨before, after, split, rfl⟩ := isBoundary
  rw [← String.ofList_toList (s := text), String.utf8ByteSize_ofList, split,
    String.utf8Len_append]
  exact Nat.le_add_right _ _

/-- An offset splits a text in one way. -/
theorem prefix_eq_of_utf8Len_eq {a b text : List Char} (first : a <+: text) (second : b <+: text)
    (same : utf8Len a = utf8Len b)
    : a = b := by
  rcases List.prefix_or_prefix_of_prefix first second with ⟨more, rfl⟩ | ⟨more, rfl⟩
  · rw [String.utf8Len_append] at same
    have isEmpty : more = [] := String.utf8Len_eq_zero.mp (by omega)
    rw [isEmpty, List.append_nil]
  · rw [String.utf8Len_append] at same
    have isEmpty : more = [] := String.utf8Len_eq_zero.mp (by omega)
    rw [isEmpty, List.append_nil]

/-- A name that is exactly what stands at its place in a text. -/
def Ident.IsSliceOf (text : String) (ident : Ident) : Prop :=
  ∃ before after,
    text.toList = before ++ (ident.name.toList ++ after)
    ∧ ident.span = ⟨utf8Len before, utf8Len before + utf8Len ident.name.toList⟩

namespace Span

/-- A range of whole characters of a text. -/
structure IsIn (text : String) (span : Span) : Prop where
  ordered : span.start ≤ span.stop
  inside : span.stop ≤ text.utf8ByteSize
  start : IsBoundary text span.start
  stop : IsBoundary text span.stop

theorem IsIn.merge {text : String} {left right : Span} (isLeft : left.IsIn text)
    (isRight : right.IsIn text)
    : (left.merge right).IsIn text where
  ordered := by
    have := isLeft.ordered
    simp only [merge_start, merge_stop]
    omega
  inside := Nat.max_le.mpr ⟨isLeft.inside, isRight.inside⟩
  start := by
    rcases Nat.le_total left.start right.start with le | le
    · simpa only [merge_start, Nat.min_eq_left le] using isLeft.start
    · simpa only [merge_start, Nat.min_eq_right le] using isRight.start
  stop := by
    rcases Nat.le_total left.stop right.stop with le | le
    · simpa only [merge_stop, Nat.max_eq_right le] using isRight.stop
    · simpa only [merge_stop, Nat.max_eq_left le] using isLeft.stop

/-- Ranges one behind the other, between two offsets. -/
def InOrder : Nat → List Span → Nat → Prop
  | low, [], high => low ≤ high
  | low, span :: rest, high =>
      low ≤ span.start ∧ span.start ≤ span.stop ∧ InOrder span.stop rest high

namespace InOrder

variable {low high : Nat} {span : Span} {spans front back : List Span}

theorem le (inOrder : InOrder low spans high) : low ≤ high := by
  induction spans generalizing low with
  | nil => exact inOrder
  | cons span rest ih =>
      obtain ⟨above, ordered, behind⟩ := inOrder
      exact above.trans (ordered.trans (ih behind))

theorem mono (inOrder : InOrder low spans high) {low' high' : Nat} (below : low' ≤ low)
    (above : high ≤ high')
    : InOrder low' spans high' := by
  induction spans generalizing low low' with
  | nil => exact below.trans (Nat.le_trans inOrder above)
  | cons span rest ih =>
      obtain ⟨isAbove, ordered, behind⟩ := inOrder
      exact ⟨below.trans isAbove, ordered, ih behind (Nat.le_refl _)⟩

theorem singleton (below : low ≤ span.start) (ordered : span.start ≤ span.stop)
    (above : span.stop ≤ high)
    : InOrder low [span] high :=
  ⟨below, ordered, above⟩

/-- Ranges in a row split at an offset between their parts. -/
theorem append_iff
    : InOrder low (front ++ back) high
      ↔ ∃ middle, InOrder low front middle ∧ InOrder middle back high := by
  constructor
  · intro inOrder
    induction front generalizing low with
    | nil => exact ⟨low, Nat.le_refl _, inOrder⟩
    | cons span rest ih =>
        obtain ⟨above, ordered, behind⟩ := inOrder
        obtain ⟨middle, first, second⟩ := ih behind
        exact ⟨middle, ⟨above, ordered, first⟩, second⟩
  · rintro ⟨middle, first, second⟩
    induction front generalizing low with
    | nil => exact second.mono first (Nat.le_refl _)
    | cons span rest ih =>
        obtain ⟨above, ordered, behind⟩ := first
        exact ⟨above, ordered, ih behind⟩

/-- What is left out leaves the rest in order. -/
theorem sublist {fewer : List Span} (isSublist : fewer.Sublist spans)
    (inOrder : InOrder low spans high)
    : InOrder low fewer high := by
  induction isSublist generalizing low with
  | slnil => exact inOrder
  | cons span _ ih =>
      obtain ⟨above, ordered, behind⟩ := inOrder
      exact (ih behind).mono (above.trans ordered) (Nat.le_refl _)
  | cons_cons span _ ih =>
      obtain ⟨above, ordered, behind⟩ := inOrder
      exact ⟨above, ordered, ih behind⟩

theorem bounds (inOrder : InOrder low spans high) (isMember : span ∈ spans)
    : low ≤ span.start ∧ span.start ≤ span.stop ∧ span.stop ≤ high := by
  have alone := inOrder.sublist (List.singleton_sublist.mpr isMember)
  exact ⟨alone.1, alone.2.1, alone.2.2⟩

theorem pairwise (inOrder : InOrder low spans high)
    : spans.Pairwise fun a b => a.stop ≤ b.start := by
  induction spans generalizing low with
  | nil => exact .nil
  | cons span rest ih =>
      obtain ⟨-, -, behind⟩ := inOrder
      exact List.pairwise_cons.mpr ⟨fun _ isMember => (behind.bounds isMember).1, ih behind⟩

theorem of_pairwise (le : low ≤ high) (pairwise : spans.Pairwise fun a b => a.stop ≤ b.start)
    (bounded : ∀ span ∈ spans, low ≤ span.start ∧ span.start ≤ span.stop ∧ span.stop ≤ high)
    : InOrder low spans high := by
  induction spans generalizing low with
  | nil => exact le
  | cons span rest ih =>
      obtain ⟨following, pairwise⟩ := List.pairwise_cons.mp pairwise
      obtain ⟨⟨above, ordered, below⟩, bounded⟩ := List.forall_mem_cons.mp bounded
      exact ⟨above, ordered, ih below pairwise fun span isMember =>
        ⟨following span isMember, (bounded span isMember).2⟩⟩

end InOrder

end Span

-----------------------------------------------------------------------------------------
-- Tokens of a text
-----------------------------------------------------------------------------------------

namespace Token

/-- Tokens that stand in a text one behind the other, between two offsets. -/
structure Laid (text : String) (low : Nat) (tokens : List Token) (high : Nat) : Prop where
  inOrder : Span.InOrder low (tokens.map Token.span) high
  isIn : ∀ token ∈ tokens, token.span.IsIn text
  isSlice : ∀ token ∈ tokens, token.isWord = true → token.toIdent.IsSliceOf text

namespace Laid

variable {text : String} {low high : Nat} {token : Token} {tokens front back : List Token}

theorem split (laid : Laid text low (front ++ back) high)
    : ∃ middle, Laid text low front middle ∧ Laid text middle back high := by
  obtain ⟨inOrder, isIn, isSlice⟩ := laid
  rw [List.map_append] at inOrder
  obtain ⟨middle, first, second⟩ := Span.InOrder.append_iff.mp inOrder
  obtain ⟨frontIn, backIn⟩ := List.forall_mem_append.mp isIn
  obtain ⟨frontSlice, backSlice⟩ := List.forall_mem_append.mp isSlice
  exact ⟨middle, ⟨first, frontIn, frontSlice⟩, ⟨second, backIn, backSlice⟩⟩

theorem uncons (laid : Laid text low (token :: tokens) high)
    : low ≤ token.span.start ∧ token.span.IsIn text ∧ Laid text token.span.stop tokens high := by
  obtain ⟨⟨above, -, behind⟩, isIn, isSlice⟩ := laid
  obtain ⟨tokenIn, tokensIn⟩ := List.forall_mem_cons.mp isIn
  exact ⟨above, tokenIn, behind, tokensIn, (List.forall_mem_cons.mp isSlice).2⟩

end Laid

end Token

/-- A token of a text is what a slice of whole characters spells. -/
theorem slice_of_mem_tokenize {text : String} {token : Token} (isMember : token ∈ tokenize text)
    : ∃ before slice after,
        text.toList = before ++ (slice ++ after)
        ∧ token.span = ⟨utf8Len before, utf8Len before + utf8Len slice⟩
        ∧ Spells token.kind slice token.text.toList := by
  obtain ⟨before, slice, after, split, start, stop, spells⟩ :=
    (scans_tokenize text).stands token isMember
  have atStart : Position.start.offset = 0 := rfl
  rw [atStart, Nat.zero_add] at start stop
  exact ⟨before, slice, after, split, by rw [← stop, ← start], spells⟩

theorem isIn_of_mem_tokenize {text : String} {token : Token} (isMember : token ∈ tokenize text)
    : token.span.IsIn text := by
  obtain ⟨before, slice, after, split, span, -⟩ := slice_of_mem_tokenize isMember
  have stop : IsBoundary text token.span.stop :=
    ⟨before ++ slice, after, by rw [split, List.append_assoc],
      by rw [span, String.utf8Len_append]⟩
  exact
    { ordered := by simp [span]
      inside := stop.le_size
      start := ⟨before, slice ++ after, split, by rw [span]⟩
      stop := stop }

/-- The tokens of a text that count stand in it one behind the other. -/
theorem laid_beforeEnd (text : String)
    : Token.Laid text 0 (Token.beforeEnd (tokenize text)) text.utf8ByteSize := by
  have isPart : (Token.beforeEnd (tokenize text)).Sublist (tokenize text) :=
    (List.takeWhile_sublist _).trans List.filter_sublist
  have isIn (token : Token) (isMember : token ∈ Token.beforeEnd (tokenize text)) :=
    isIn_of_mem_tokenize (isPart.mem isMember)
  refine ⟨.of_pairwise (Nat.zero_le _) ?_ ?_, isIn, fun token isMember isWord => ?_⟩
  · exact List.pairwise_map.mpr ((scans_tokenize text).ordered.sublist isPart)
  · intro span isMember
    obtain ⟨token, isToken, rfl⟩ := List.mem_map.mp isMember
    have tokenIn := isIn token isToken
    exact ⟨Nat.zero_le _, tokenIn.ordered, tokenIn.inside⟩
  · obtain ⟨before, slice, after, split, span, spells⟩ :=
      slice_of_mem_tokenize (isPart.mem isMember)
    -- the text of a comment or a string is not what stands there, but neither of them is a word
    have same : slice = token.text.toList := by
      rw [Token.isWord] at isWord
      generalize token.kind = kind, token.text.toList = written at spells isWord ⊢
      cases spells with
      | verbatim => rfl
      | comment => simp [TokenKind.isWord] at isWord
      | docComment => simp [TokenKind.isWord] at isWord
      | string => simp [TokenKind.isWord] at isWord
    exact ⟨before, after, same ▸ split, same ▸ span⟩

end SchemaDoc
