import SchemaDoc.Proofs.Token.Lines

/-! Which characters of a text a scan skips, and where they stand.
They are the characters in no token that are no blanks, in the order of the text. Their places
are said by counting, modulo the width of the counters, without reference to how a scan goes along.
-/

namespace SchemaDoc

open String (utf8Len)

-----------------------------------------------------------------------------------------
-- Characters in no token
-----------------------------------------------------------------------------------------

/-- No token covers an offset. -/
def Uncovered (tokens : List Token) (offset : Nat) : Prop :=
  ∀ token ∈ tokens, ¬(token.span.start ≤ offset ∧ offset < token.span.stop)

/-- A character of a text that begins at an offset is left over by tokens, behind the text in
front of it: no token covers it, and it is no blank but for a line break.
-/
structure LeftOver (tokens : List Token) (offset : Nat) (text before : List Char) (c : Char)
    : Prop where
  split : ∃ after, text = before ++ c :: after
  uncovered : Uncovered tokens (offset + utf8Len before)
  notBlank : ¬(c ≠ '\n' ∧ Text.isBlank c = true)

theorem leftOver_cons_iff {tokens : List Token} {offset : Nat} {d c : Char}
    {rest before : List Char}
    : LeftOver tokens offset (d :: rest) before c
      ↔ (before = []
          ∧ c = d
          ∧ Uncovered tokens offset
          ∧ ¬(d ≠ '\n' ∧ Text.isBlank d = true))
        ∨ ∃ before',
            before = d :: before' ∧ LeftOver tokens (offset + d.utf8Size) rest before' c := by
  constructor
  · intro leftOver
    obtain ⟨⟨after, split⟩, uncovered, notBlank⟩ := leftOver
    cases before with
    | nil =>
        obtain ⟨rfl, rfl⟩ := List.cons.inj split
        exact .inl ⟨rfl, rfl, uncovered, notBlank⟩
    | cons d' before =>
        obtain ⟨rfl, behind⟩ := List.cons.inj split
        refine .inr ⟨before, rfl, ⟨after, behind⟩, ?_, notBlank⟩
        rwa [String.utf8Len_cons, Nat.add_comm (utf8Len before), ← Nat.add_assoc] at uncovered
  · intro leftOver
    rcases leftOver with ⟨rfl, rfl, uncovered, notBlank⟩ | ⟨before, rfl, behind⟩
    · exact ⟨⟨rest, rfl⟩, uncovered, notBlank⟩
    · obtain ⟨⟨after, rfl⟩, uncovered, notBlank⟩ := behind
      refine ⟨⟨after, rfl⟩, ?_, notBlank⟩
      rwa [String.utf8Len_cons, Nat.add_comm (utf8Len before), ← Nat.add_assoc]

/-- Behind a token only the tokens behind it count, and in the token nothing is left over. -/
theorem leftOver_append_iff {token : Token} {tokens : List Token} {offset : Nat}
    {source rest before : List Char} {c : Char}
    (span : token.span = ⟨offset, offset + utf8Len source⟩)
    : LeftOver (token :: tokens) offset (source ++ rest) before c
      ↔ ∃ before',
          before = source ++ before'
          ∧ LeftOver tokens (offset + utf8Len source) rest before' c := by
  constructor
  · intro leftOver
    obtain ⟨⟨after, split⟩, uncovered, notBlank⟩ := leftOver
    obtain ⟨outside, uncovered⟩ := List.forall_mem_cons.mp uncovered
    rcases split_of_append_eq split with ⟨more, rfl, -⟩ | ⟨before, rfl, behind⟩
    · exfalso
      apply outside
      have := c.utf8Size_pos
      simp only [span, String.utf8Len_append, String.utf8Len_cons]
      omega
    · refine ⟨before, rfl, ⟨after, behind⟩, ?_, notBlank⟩
      rwa [String.utf8Len_append, ← Nat.add_assoc] at uncovered
  · intro leftOver
    obtain ⟨before, rfl, ⟨after, rfl⟩, uncovered, notBlank⟩ := leftOver
    refine ⟨⟨after, (List.append_assoc ..).symm⟩, ?_, notBlank⟩
    rw [String.utf8Len_append, ← Nat.add_assoc]
    refine List.forall_mem_cons.mpr ⟨?_, uncovered⟩
    simp only [span]
    omega

theorem Scans.uncovered_of_lt {position : Position} {text : List Char} {tokens : List Token}
    (scans : Scans position text tokens) {offset : Nat} (inFront : offset < position.offset)
    : Uncovered tokens offset := by
  intro token isMember covers
  obtain ⟨before, slice, after, -, start, -, -⟩ := scans.stands token isMember
  omega

-----------------------------------------------------------------------------------------
-- What a scan skips
-----------------------------------------------------------------------------------------

/-- A skipped character is one that tokens leave over in a text from a place, and it stands where
the text in front of it leads.
-/
def Skipped.StandsIn (skipped : Skipped) (tokens : List Token) (position : Position)
    (text : List Char)
    : Prop :=
  ∃ before,
    LeftOver tokens position.offset text before skipped.character
    ∧ skipped.position = position.after before

namespace Skipped.StandsIn

variable {skipped : Skipped} {tokens : List Token} {position : Position} {rest : List Char}

theorem cons_iff {c : Char}
    : skipped.StandsIn tokens position (c :: rest)
      ↔ (skipped = ⟨c, position⟩
          ∧ Uncovered tokens position.offset
          ∧ ¬(c ≠ '\n' ∧ Text.isBlank c = true))
        ∨ skipped.StandsIn tokens (position.next c) rest := by
  constructor
  · intro stands
    obtain ⟨before, leftOver, place⟩ := stands
    rcases leftOver_cons_iff.mp leftOver with
      ⟨rfl, same, uncovered, notBlank⟩ | ⟨before, rfl, behind⟩
    · refine .inl ⟨?_, uncovered, notBlank⟩
      rw [← same]
      exact congrArg (Skipped.mk skipped.character) place
    · rw [← Position.offset_next] at behind
      exact .inr ⟨before, behind, place⟩
  · intro stands
    rcases stands with ⟨rfl, uncovered, notBlank⟩ | ⟨before, leftOver, place⟩
    · exact ⟨[], leftOver_cons_iff.mpr (.inl ⟨rfl, rfl, uncovered, notBlank⟩), rfl⟩
    · rw [Position.offset_next] at leftOver
      exact ⟨c :: before, leftOver_cons_iff.mpr (.inr ⟨before, rfl, leftOver⟩), place⟩

theorem lexeme_iff {text : List Char} {lexeme : Lexeme} (read : Lexeme.first? text = some lexeme)
    : skipped.StandsIn (lexeme.toToken position :: tokens) position text
      ↔ skipped.StandsIn tokens (position.after lexeme.source) lexeme.rest := by
  have span : (lexeme.toToken position).span
      = ⟨position.offset, position.offset + utf8Len lexeme.source⟩ := by
    rw [← Position.offset_after]
    rfl
  rw [← Lexeme.source_append_rest read]
  constructor
  · intro stands
    obtain ⟨before, leftOver, place⟩ := stands
    obtain ⟨before, rfl, behind⟩ := (leftOver_append_iff span).mp leftOver
    rw [← Position.offset_after] at behind
    exact ⟨before, behind, place.trans (Position.after_append ..)⟩
  · intro stands
    obtain ⟨before, leftOver, place⟩ := stands
    rw [Position.offset_after] at leftOver
    exact ⟨lexeme.source ++ before, (leftOver_append_iff span).mpr ⟨before, rfl, leftOver⟩,
      place.trans (Position.after_append ..).symm⟩

end Skipped.StandsIn

namespace Scan

/-- A scan skips exactly the characters that its tokens leave over, each where it stands. -/
theorem mem_skipped_iff (position : Position) (text : List Char) (skipped : Skipped)
    : skipped ∈ (ofChars position text).skipped
      ↔ skipped.StandsIn (ofChars position text).tokens position text := by
  fun_induction ofChars position text with
  | case1 position =>
      refine iff_of_false List.not_mem_nil fun stands => ?_
      obtain ⟨before, ⟨⟨after, split⟩, -, -⟩, -⟩ := stands
      exact List.append_ne_nil_of_right_ne_nil before (List.cons_ne_nil _ after) split.symm
  | case2 position c rest isBlank ih =>
      rw [ih, Skipped.StandsIn.cons_iff]
      exact (or_iff_right fun isHere => isHere.2.2 isBlank).symm
  | case3 position c rest notBlank lexeme read scan ih =>
      rw [Skipped.StandsIn.lexeme_iff read]
      exact ih
  | case4 position c rest notBlank read scan ih =>
      have uncovered : Uncovered scan.tokens position.offset := by
        apply (scans_ofChars (position.next c) rest).uncovered_of_lt
        rw [Position.offset_next]
        exact Nat.lt_add_of_pos_right c.utf8Size_pos
      rw [List.mem_cons, ih, Skipped.StandsIn.cons_iff]
      exact or_congr_left (iff_self_and.mpr fun _ => ⟨uncovered, notBlank⟩)

/-- Skipped characters are found in the order of the text. -/
theorem skipped_ordered (position : Position) (text : List Char)
    : (ofChars position text).skipped.Pairwise fun a b =>
        a.position.offset < b.position.offset := by
  fun_induction ofChars position text with
  | case1 => exact .nil
  | case2 _ _ _ _ ih => exact ih
  | case3 _ _ _ _ _ _ _ ih => exact ih
  | case4 position c rest _ _ scan ih =>
      refine List.pairwise_cons.mpr ⟨fun skipped isMember => ?_, ih⟩
      obtain ⟨before, -, place⟩ := (mem_skipped_iff (position.next c) rest skipped).mp isMember
      change position.offset < skipped.position.offset
      rw [place, Position.offset_after, Position.offset_next]
      have := c.utf8Size_pos
      omega

end Scan

-----------------------------------------------------------------------------------------
-- What a text has skipped
-----------------------------------------------------------------------------------------

/-- A permissive reading of a text skips a character behind the text in front of it: its tokens
leave the character over.
-/
def Skips (text : String) (before : List Char) (c : Char) : Prop :=
  LeftOver (tokenize text) 0 text.toList before c

/-- The character of least offset that a permissive reading of a text skips, with its place: its
line and its column are what the text in front of it counts, modulo the width of their counters.
-/
def FirstSkipped (text : String) (skipped : Skipped) : Prop :=
  ∃ before,
    Skips text before skipped.character
    ∧ skipped.position = .behind before
    ∧ ∀ before' c, Skips text before' c → utf8Len before ≤ utf8Len before'

theorem mem_skipped_ofText_iff {text : String} {skipped : Skipped}
    : skipped ∈ (Scan.ofText text).skipped
      ↔ ∃ before, Skips text before skipped.character ∧ skipped.position = .behind before := by
  simp only [← Position.after_start]
  exact Scan.mem_skipped_iff .start text.toList skipped

theorem skipped_eq_nil_iff {text : String}
    : (Scan.ofText text).skipped = [] ↔ ∀ before c, ¬Skips text before c := by
  rw [List.eq_nil_iff_forall_not_mem]
  constructor
  · intro noneSkipped before c skips
    exact noneSkipped ⟨c, .behind before⟩ (mem_skipped_ofText_iff.mpr ⟨before, skips, rfl⟩)
  · intro noSkip skipped isMember
    obtain ⟨before, skips, -⟩ := mem_skipped_ofText_iff.mp isMember
    exact noSkip before _ skips

/-- The first character that a scan skips is the one of least offset. -/
theorem head?_skipped_eq_some_iff {text : String} {skipped : Skipped}
    : (Scan.ofText text).skipped.head? = some skipped ↔ FirstSkipped text skipped := by
  have ordered := Scan.skipped_ordered .start text.toList
  change (Scan.ofText text).skipped.Pairwise _ at ordered
  constructor
  · intro isHead
    obtain ⟨rest, split⟩ := List.head?_eq_some_iff.mp isHead
    have isMember : skipped ∈ (Scan.ofText text).skipped := by simp [split]
    obtain ⟨before, skips, place⟩ := mem_skipped_ofText_iff.mp isMember
    refine ⟨before, skips, place, fun before' c skips' => ?_⟩
    have isMember' : ⟨c, .behind before'⟩ ∈ (Scan.ofText text).skipped :=
      mem_skipped_ofText_iff.mpr ⟨before', skips', rfl⟩
    rw [split] at isMember' ordered
    rcases List.mem_cons.mp isMember' with same | later
    · rw [← same] at place
      exact (congrArg Position.offset place).ge
    · have lt := (List.pairwise_cons.mp ordered).1 _ later
      rw [place] at lt
      exact lt.le
  · intro isFirst
    obtain ⟨before, skips, place, least⟩ := isFirst
    have isMember := mem_skipped_ofText_iff.mpr ⟨before, skips, place⟩
    cases split : (Scan.ofText text).skipped with
    | nil => simp [split] at isMember
    | cons head rest =>
        obtain ⟨before', skips', place'⟩ :=
          mem_skipped_ofText_iff.mp (split ▸ List.mem_cons_self)
        rw [split] at isMember ordered
        rcases List.mem_cons.mp isMember with same | later
        · rw [same, List.head?_cons]
        · have lt := (List.pairwise_cons.mp ordered).1 skipped later
          have le := least before' _ skips'
          rw [place, place'] at lt
          exact absurd le (Nat.not_le_of_lt lt)

end SchemaDoc
