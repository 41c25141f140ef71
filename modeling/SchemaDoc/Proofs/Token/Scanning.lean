import Mathlib.Data.String.Basic
import SchemaDoc.Proofs.Lists
import SchemaDoc.Proofs.Token.Spelling

/-! What a scan of a text is, step by step, and that its tokens lose and invent nothing.
A step reads a lexeme or passes over one character; offsets count from the place where the scan
begins, so each fact holds of every end of a text.
-/

namespace SchemaDoc

open String (utf8Len)

namespace Position

theorem offset_next (position : Position) (c : Char)
    : (position.next c).offset = position.offset + c.utf8Size := by
  unfold next
  split <;> rfl

theorem offset_after (position : Position) (text : List Char)
    : (position.after text).offset = position.offset + utf8Len text := by
  induction text generalizing position with
  | nil => rfl
  | cons c rest ih =>
      rw [after, List.foldl_cons, ← after, ih, offset_next, String.utf8Len_cons]
      omega

theorem after_append (position : Position) (front back : List Char)
    : position.after (front ++ back) = (position.after front).after back :=
  List.foldl_append

end Position

/-- A character that a scan passes over: a blank one that ends no line, or one that starts no
token.
-/
def IsGap (c : Char) (rest : List Char) : Prop :=
  (Text.isBlank c = true ∧ c ≠ '\n') ∨ ¬StartsToken (c :: rest)

namespace Scan

variable {c : Char} {rest : List Char}

theorem ofChars_of_blank (isBlank : c ≠ '\n' ∧ Text.isBlank c = true) (position : Position)
    : ofChars position (c :: rest) = ofChars (position.next c) rest := by
  rw [ofChars, if_pos isBlank]

theorem ofChars_of_lexeme {lexeme : Lexeme} (notBlank : ¬(c ≠ '\n' ∧ Text.isBlank c = true))
    (read : Lexeme.first? (c :: rest) = some lexeme) (position : Position)
    : ofChars position (c :: rest)
      = ⟨lexeme.toToken position
            :: (ofChars (position.after lexeme.source) lexeme.rest).tokens,
          (ofChars (position.after lexeme.source) lexeme.rest).skipped⟩ := by
  rw [ofChars, if_neg notBlank]
  split
  next found =>
    obtain rfl := Option.some.inj (found.symm.trans read)
    rfl
  next unread => simp [read] at unread

theorem ofChars_of_skipped (notBlank : ¬(c ≠ '\n' ∧ Text.isBlank c = true))
    (unread : Lexeme.first? (c :: rest) = none) (position : Position)
    : ofChars position (c :: rest)
      = ⟨(ofChars (position.next c) rest).tokens,
          ⟨c, position⟩ :: (ofChars (position.next c) rest).skipped⟩ := by
  rw [ofChars, if_neg notBlank]
  split
  next found => simp [unread] at found
  next => rfl

end Scan

/-- A scan of a text from a place, as the steps it takes. -/
inductive Scans : Position → List Char → List Token → Prop
  | ending {position} : Scans position [] [.ending position]
  | gap {position c rest tokens} (isGap : IsGap c rest)
    (behind : Scans (position.next c) rest tokens)
    : Scans position (c :: rest) tokens
  | lexeme {position text lexeme tokens} (read : Lexeme.first? text = some lexeme)
    (behind : Scans (position.after lexeme.source) lexeme.rest tokens)
    : Scans position text (lexeme.toToken position :: tokens)

theorem scans_ofChars (position : Position) (text : List Char)
    : Scans position text (Scan.ofChars position text).tokens := by
  fun_induction Scan.ofChars position text with
  | case1 => exact .ending
  | case2 position c rest isBlank ih => exact .gap (Or.inl isBlank.symm) ih
  | case3 position c rest notBlank lexeme read scan ih => exact .lexeme read ih
  | case4 position c rest notBlank read scan ih =>
      have notStart : ¬StartsToken (c :: rest) :=
        mt (first?_isSome_iff _).mpr (by simp [read])
      exact .gap (Or.inr notStart) ih

theorem scans_tokenize (text : String) : Scans .start text.toList (tokenize text) :=
  scans_ofChars .start text.toList

/-- A token that stands between two stretches of a text, spelled by what is between them. -/
structure Token.StandsAt (token : Token) (offset : Nat) (before slice : List Char) : Prop where
  start : token.span.start = offset + utf8Len before
  stop : token.span.stop = offset + utf8Len before + utf8Len slice
  spells : Spells token.kind slice token.text.toList

namespace Scans

variable {position : Position} {text : List Char} {tokens : List Token}

/-- A scan ends in its only end of the input, behind tokens that are not empty. -/
theorem ending_eq (scans : Scans position text tokens)
    : ∃ front,
        tokens = front ++ [.ending (position.after text)]
        ∧ ∀ token ∈ front, token.kind ≠ .endOfInput ∧ token.span.start < token.span.stop := by
  induction scans with
  | ending => exact ⟨[], rfl, by simp⟩
  | gap _ _ ih => exact ih
  | @lexeme position text lexeme tokens read _ ih =>
      obtain ⟨front, rfl, proper⟩ := ih
      have place : position.after text = (position.after lexeme.source).after lexeme.rest := by
        rw [← Position.after_append, Lexeme.source_append_rest read]
      refine ⟨lexeme.toToken position :: front, by rw [place]; rfl, fun token isMember => ?_⟩
      rcases List.mem_cons.mp isMember with rfl | isMember
      · refine ⟨(spells_of_first? read).2, ?_⟩
        have longer : 0 < utf8Len lexeme.source := by
          obtain ⟨c, rest, split⟩ := List.exists_cons_of_ne_nil (Lexeme.source_ne_nil read)
          rw [split, String.utf8Len_cons]
          have := c.utf8Size_pos
          omega
        change position.offset < (position.after lexeme.source).offset
        rw [Position.offset_after]
        omega
      · exact proper token isMember

/-- Every token of a scan but the end is a lexeme of the text, at the place behind what is in front
of it. The induction is on the steps of the scan.
-/
theorem reads (scans : Scans position text tokens)
    : ∀ token ∈ tokens,
        token = .ending (position.after text)
        ∨ ∃ before lexeme,
            text = before ++ (lexeme.source ++ lexeme.rest)
            ∧ Lexeme.first? (lexeme.source ++ lexeme.rest) = some lexeme
            ∧ token = lexeme.toToken (position.after before) := by
  induction scans with
  | ending => exact fun token isMember => .inl (List.mem_singleton.mp isMember)
  | @gap position c rest tokens _ _ ih =>
      intro token isMember
      rcases ih token isMember with isEnd | ⟨before, lexeme, rfl, read, isToken⟩
      · exact .inl isEnd
      · exact .inr ⟨c :: before, lexeme, rfl, read, isToken⟩
  | @lexeme position text lexeme tokens read _ ih =>
      have split := Lexeme.source_append_rest read
      intro token isMember
      rcases List.mem_cons.mp isMember with rfl | isMember
      · exact .inr ⟨[], lexeme, split.symm, split.symm ▸ read, rfl⟩
      · rw [← split, Position.after_append]
        rcases ih token isMember with isEnd | ⟨before, lexeme', behind, read', isToken⟩
        · exact .inl isEnd
        · refine .inr ⟨lexeme.source ++ before, lexeme', ?_, read', ?_⟩
          · rw [behind, List.append_assoc]
          · rw [isToken, Position.after_append]

/-- Every token of a scan is a slice of the text. -/
theorem stands (scans : Scans position text tokens)
    : ∀ token ∈ tokens,
        ∃ before slice after,
          text = before ++ (slice ++ after)
          ∧ Token.StandsAt token position.offset before slice := by
  intro token isMember
  rcases scans.reads token isMember with rfl | ⟨before, lexeme, split, read, rfl⟩
  · have start : (Token.ending (position.after text)).span.start
        = position.offset + utf8Len text :=
      Position.offset_after position text
    exact ⟨text, [], [], by simp, start, start, .verbatim (by simp [Token.ending])⟩
  · have stop : ((position.after before).after lexeme.source).offset
        = position.offset + utf8Len before + utf8Len lexeme.source := by
      rw [Position.offset_after, Position.offset_after]
    refine ⟨before, lexeme.source, lexeme.rest, split, Position.offset_after position before, stop,
      ?_⟩
    simpa [Lexeme.toToken] using (spells_of_first? read).1

/-- What relates every lexeme of a text, at its place there, to the tokens of the scan behind it
relates each token of a scan to those behind it.
-/
theorem pairwise {R : Token → Token → Prop}
    (related
      : ∀ before {lexeme behind},
          text = before ++ (lexeme.source ++ lexeme.rest)
          → Lexeme.first? (lexeme.source ++ lexeme.rest) = some lexeme
          → Scans ((position.after before).after lexeme.source) lexeme.rest behind
          → ∀ token ∈ behind, R (lexeme.toToken (position.after before)) token)
    (scans : Scans position text tokens)
    : tokens.Pairwise R := by
  induction scans with
  | ending => exact List.pairwise_singleton _ _
  | @gap position c rest tokens _ _ ih =>
      exact ih fun before _ _ split read behind =>
        related (c :: before) (congrArg (c :: ·) split) read behind
  | @lexeme position text lexeme tokens read behind ih =>
      have split := Lexeme.source_append_rest read
      refine List.pairwise_cons.mpr
        ⟨related [] split.symm (split.symm ▸ read) behind, ih ?_⟩
      intro before lexeme' behind' split' read' scans'
      rw [← Position.after_append position lexeme.source before] at scans' ⊢
      exact related _ (by rw [← split, split', List.append_assoc]) read' scans'

/-- The tokens of a scan follow one another without overlap. -/
theorem ordered (scans : Scans position text tokens)
    : tokens.Pairwise fun a b => a.span.stop ≤ b.span.start := by
  refine scans.pairwise fun _ _ _ _ _ behind token isMember => ?_
  obtain ⟨before, _, _, _, start, _, _⟩ := behind.stands token isMember
  rw [start]
  exact Nat.le_add_right _ _

/-- A character of the text that is in no token is one that a scan passes over. -/
theorem isGap_of_uncovered (scans : Scans position text tokens) {before after : List Char}
    {c : Char} (split : text = before ++ c :: after)
    (uncovered
      : ∀ token ∈ tokens,
          ¬(token.span.start ≤ position.offset + utf8Len before
            ∧ position.offset + utf8Len before < token.span.stop))
    : IsGap c after := by
  induction scans generalizing before with
  | ending => simp at split
  | @gap position d rest tokens isGap _ ih =>
      cases before with
      | nil =>
          obtain ⟨rfl, rfl⟩ := List.cons.inj split
          exact isGap
      | cons d' before =>
          obtain ⟨rfl, behind⟩ := List.cons.inj split
          refine ih behind fun token isMember => ?_
          have outside := uncovered token isMember
          rw [String.utf8Len_cons] at outside
          rw [Position.offset_next]
          omega
  | @lexeme position text lexeme tokens read _ ih =>
      have whole := Lexeme.source_append_rest read
      rw [split] at whole
      rcases split_of_append_eq whole with ⟨more, inside, -⟩ | ⟨more, rfl, behind⟩
      · exfalso
        apply uncovered _ List.mem_cons_self
        refine ⟨Nat.le_add_right _ _, ?_⟩
        change _ < (position.after lexeme.source).offset
        rw [Position.offset_after, inside, String.utf8Len_append, String.utf8Len_cons]
        have := c.utf8Size_pos
        omega
      · refine ih behind fun token isMember => ?_
        have outside := uncovered token (List.mem_cons_of_mem _ isMember)
        rw [String.utf8Len_append] at outside
        rw [Position.offset_after]
        omega

end Scans

/-- The tokens of a text cover it. They end in the only empty one, at the end of the text; they
do not overlap; each is a slice of whole characters that determines its text; and a character
in none of them is blank without ending a line, or starts no token.
-/
theorem tokenize_covers (text : String)
    : (∃ front ending,
        tokenize text = front ++ [ending]
        ∧ ending.kind = .endOfInput
        ∧ ending.span = ⟨text.utf8ByteSize, text.utf8ByteSize⟩
        ∧ ∀ token ∈ front, token.kind ≠ .endOfInput ∧ token.span.start < token.span.stop)
      ∧ (tokenize text).Pairwise (fun a b => a.span.stop ≤ b.span.start)
      ∧ (∀ token ∈ tokenize text,
          ∃ before slice after,
            text.toList = before ++ (slice ++ after)
            ∧ token.span = ⟨utf8Len before, utf8Len before + utf8Len slice⟩
            ∧ Spells token.kind slice token.text.toList
            ∧ ∀ other, Spells token.kind slice other → other = token.text.toList)
      ∧ ∀ before c after,
          text.toList = before ++ c :: after
          → (∀ token ∈ tokenize text,
              ¬(token.span.start ≤ utf8Len before ∧ utf8Len before < token.span.stop))
          → (Text.isBlank c = true ∧ c ≠ '\n') ∨ ¬StartsToken (c :: after) := by
  have scans := scans_tokenize text
  have size : text.utf8ByteSize = (Position.start.after text.toList).offset := by
    rw [Position.offset_after, ← String.utf8ByteSize_ofList, String.ofList_toList]
    exact (Nat.zero_add _).symm
  refine ⟨?_, scans.ordered, fun token isMember => ?_, fun before c after split uncovered => ?_⟩
  · obtain ⟨front, same, proper⟩ := scans.ending_eq
    exact ⟨front, _, same, rfl, by rw [size]; rfl, proper⟩
  · obtain ⟨before, slice, after, split, start, stop, spells⟩ := scans.stands token isMember
    have atStart : Position.start.offset = 0 := rfl
    rw [atStart, Nat.zero_add] at start stop
    exact ⟨before, slice, after, split, by rw [← stop, ← start], spells,
      fun other spells' => spells'.unique spells⟩
  · refine scans.isGap_of_uncovered split fun token isMember => ?_
    have atStart : Position.start.offset = 0 := rfl
    rw [atStart, Nat.zero_add]
    exact uncovered token isMember

end SchemaDoc
