import SchemaDoc.Proofs.Grammar.Comments

/-! The entries of a block are read exactly as they are derived, comments included.
They are looked at from the token before each run of comments, where the comment behind that
token is not yet taken.
-/

namespace SchemaDoc

namespace Grammar

open Production (Member)

variable {α : Type} {member : Member α}

/-- An entry begins with a word or a double sign. -/
theorem CommentedEntry.uncons {documentation : Option Documentation} {tokens : List Token}
    {entry : SchemaDoc.Entry α} (isEntry : CommentedEntry member documentation tokens entry)
    : ∃ first back,
        tokens = first :: back ∧ (first.isWord = true ∨ first.kind = .doubleAt) := by
  cases isEntry with
  | member isMember =>
      obtain ⟨word, back, rfl, isWord⟩ := member.begins isMember
      exact ⟨word, back, rfl, Or.inl isWord⟩
  | marked isMarked =>
      obtain ⟨isMark, _⟩ := isMarked
      exact ⟨_, _, rfl, Or.inr isMark⟩

/-- What trails a token is the front of the run behind it. -/
theorem trailing?_append_leading (previous : Token) (comments : List Token)
    : (trailing? previous comments).toList ++ leading previous comments = comments := by
  cases comments with
  | nil => rfl
  | cons c rest =>
      unfold leading trailing?
      by_cases trails : (c.kind = .docComment && c.line = previous.line) = true <;>
        simp [Option.filter_some, trails]

/-- Nothing trails a token unless a comment follows it. -/
theorem trailing?_eq_none {previous : Token} {tokens : List Token}
    (h : ∀ token ∈ tokens.head?, token.kind ≠ .docComment)
    : trailing? previous tokens = none := by
  cases tokens with
  | nil => rfl
  | cons token rest =>
      have other := h token rfl
      simp [trailing?, Option.filter_some, other]

/-- What stands behind a run of comments has no part in what trails the token before. -/
theorem trailing?_append {previous : Token} {comments rest : List Token}
    (h : ∀ token ∈ rest.head?, token.kind ≠ .docComment)
    : trailing? previous (comments ++ rest) = trailing? previous comments := by
  cases comments with
  | nil => exact trailing?_eq_none h
  | cons c comments => rfl

theorem trailing?_eq_some_iff {previous c : Token} {tokens : List Token}
    : trailing? previous tokens = some c
      ↔ ∃ rest, tokens = c :: rest ∧ c.kind = .docComment ∧ c.line = previous.line := by
  rw [trailing?, Option.filter_eq_some_iff, List.head?_eq_some_iff]
  simp

/-- Behind the comment that trails a token, the whole run is there. -/
theorem leading_cons {previous comment : Token} {comments : List Token}
    (isComment : comment.kind = .docComment) (sameLine : comment.line = previous.line)
    : leading previous (comment :: comments) = comments := by
  have trails : trailing? previous (comment :: comments) = some comment := by
    simp [trailing?, Option.filter_some, isComment, sameLine]
  rw [leading, trails]
  rfl

theorem leading_append (previous : Token) (comments : List Token) {rest : List Token}
    (notComment : ∀ token ∈ rest.head?, token.kind ≠ .docComment)
    : leading previous (comments ++ rest) = leading previous comments ++ rest := by
  have split := trailing?_append_leading previous (comments ++ rest)
  rw [trailing?_append notComment] at split
  have split' := trailing?_append_leading previous comments
  refine @List.append_cancel_left _ (trailing? previous comments).toList _ _ ?_
  rw [split, ← List.append_assoc, split']

end Grammar

namespace Production

open Grammar

variable {α : Type}

theorem trailingComment_eq_ok {cursor next : Cursor} {comment : Option Token}
    : trailingComment cursor = .ok (comment, next)
      ↔ comment = trailing? cursor.previous cursor.rest
        ∧ cursor.Passes comment.toList next :=
  optional_eq_ok

theorem leadingComments_eq_ok {cursor next : Cursor} {comments : List Token}
    : leadingComments cursor = .ok (comments, next)
      ↔ cursor.Passes comments next
        ∧ (∀ c ∈ comments, c.kind = .docComment)
        ∧ next.kind ≠ .docComment := by
  have stop : next.kind ≠ .docComment
      ↔ ∀ token ∈ next.rest.head?, decide (token.kind = .docComment) = false := by
    cases found : next.rest <;> simp [Cursor.kind, found]
  rw [stop, leadingComments, takeWhile_eq_ok]
  simp only [decide_eq_true_eq]

/-- A run of comments is read in two parts, of which the first trails the token before. -/
theorem comments_eq_ok {cursor next : Cursor} {trails : Option Token} {leads : List Token}
    : (∃ middle, trailingComment cursor = .ok (trails, middle)
        ∧ leadingComments middle = .ok (leads, next))
      ↔ ∃ comments,
          cursor.Passes comments next
          ∧ (∀ c ∈ comments, c.kind = .docComment)
          ∧ next.kind ≠ .docComment
          ∧ trails = trailing? cursor.previous comments
          ∧ leads = leading cursor.previous comments := by
  have behind (comments : List Token) (passes : cursor.Passes comments next)
      (stop : next.kind ≠ .docComment)
      : trailing? cursor.previous cursor.rest = trailing? cursor.previous comments := by
    rw [passes.rest]
    refine trailing?_append fun token member => ?_
    rw [Option.mem_def] at member
    simpa [Cursor.kind, member] using stop
  simp only [trailingComment_eq_ok, leadingComments_eq_ok]
  constructor
  · rintro ⟨middle, ⟨rfl, trailPassed⟩, leadPassed, areComments, stop⟩
    have passes := trailPassed.trans leadPassed
    have same := behind _ passes stop
    have split := trailing?_append_leading cursor.previous
      ((trailing? cursor.previous cursor.rest).toList ++ leads)
    rw [← same] at split
    refine ⟨_, passes, fun c member => ?_, stop, same, (List.append_cancel_left split).symm⟩
    rcases List.mem_append.mp member with trails | leads
    · have holds := (Option.filter_eq_some_iff.mp (Option.mem_toList.mp trails)).2
      simp only [Bool.and_eq_true, decide_eq_true_eq] at holds
      exact holds.1
    · exact areComments c leads
  · rintro ⟨comments, passes, areComments, stop, rfl, rfl⟩
    have split := trailing?_append_leading cursor.previous comments
    obtain ⟨middle, trailPassed, leadPassed⟩ := (split ▸ passes).split
    refine ⟨middle, ⟨(behind comments passes stop).symm, trailPassed⟩, leadPassed, ?_, stop⟩
    exact fun c member => areComments c (split ▸ List.mem_append_right _ member)

-----------------------------------------------------------------------------------------
-- Entries of blocks
-----------------------------------------------------------------------------------------

section Entries

variable {member : Member α} {expected : Expectation}

/-- What may stand where an entry could follow does not continue a member. -/
theorem notMem_memberFollow {kind : TokenKind}
    (h : kind = .docComment ∨ kind = .rightBrace ∨ kind = .doubleAt ∨ kind.isWord = true)
    : kind ∉ memberFollow := by
  revert h
  cases kind <;> decide

/-- In front of a run of comments stands a comment, or what follows an empty run. -/
theorem kind_of_comments {cursor next : Cursor} {comments : List Token}
    (passes : cursor.Passes comments next) (areComments : ∀ c ∈ comments, c.kind = .docComment)
    : cursor.kind = .docComment ∨ cursor.kind = next.kind := by
  cases comments with
  | nil => exact Or.inr (congrArg Cursor.kind passes.eq_of_nil.symm)
  | cons c _ => exact Or.inl (passes.kind_eq.trans (areComments c (by simp)))

/-- A block ends at its closing brace, behind comments that document nothing. -/
theorem nextEntry_none_iff {cursor next : Cursor}
    : nextEntry expected member.read cursor = .ok (none, next)
      ↔ ∃ comments,
          leadingComments cursor = .ok (comments, next) ∧ next.kind = .rightBrace := by
  constructor
  · intro h
    obtain ⟨comments, middle, leads, later⟩ := bind_eq_ok h
    rw [peekKind_bind] at later
    split at later
    next closes =>
      obtain ⟨-, rfl⟩ := pure_eq_ok.mp later
      exact ⟨comments, leads, closes⟩
    next =>
      split at later
      next =>
        obtain ⟨_, _, _, later⟩ := bind_eq_ok later
        obtain ⟨_, _, _, later⟩ := bind_eq_ok later
        obtain ⟨_, _, _, later⟩ := bind_eq_ok later
        exact absurd (pure_eq_ok.mp later).1 (by simp)
      next =>
        split at later
        next =>
          obtain ⟨_, _, _, later⟩ := bind_eq_ok later
          exact absurd (pure_eq_ok.mp later).1 (by simp)
        next => exact absurd later refuse_ne_ok
  · rintro ⟨comments, leads, closes⟩
    refine bind_eq_ok_iff.mpr ⟨comments, next, leads, ?_⟩
    rw [peekKind_bind, if_pos closes]
    rfl

/-- An entry that is read stands between the comments in front of it and the one behind it. -/
theorem entry_of_nextEntry {cursor next : Cursor} {entry : Entry α}
    (h : nextEntry expected member.read cursor = .ok (some entry, next))
    : ∃ comments start tokens stop comment,
        leadingComments cursor = .ok (comments, start)
        ∧ start.Passes tokens stop
        ∧ trailingComment stop = .ok (comment, next)
        ∧ CommentedEntry member
            (Documentation.extend? (Documentation.ofTokens? comments) comment) tokens entry := by
  obtain ⟨comments, start, leads, later⟩ := bind_eq_ok h
  rw [peekKind_bind] at later
  split at later
  next => exact absurd (pure_eq_ok.mp later).1 (by simp)
  next =>
    split at later
    next =>
      obtain ⟨sign, _, marked, later⟩ := bind_eq_ok later
      obtain ⟨isMark, signPassed⟩ := token_eq_ok.mp marked
      obtain ⟨a, stop, read, later⟩ := bind_eq_ok later
      obtain ⟨tokens, passes, isAttribute⟩ := sound_attributeBody read
      obtain ⟨comment, _, trails, later⟩ := bind_eq_ok later
      obtain ⟨same, rfl⟩ := pure_eq_ok.mp later
      obtain rfl := Option.some.inj same
      exact ⟨comments, start, sign :: tokens, stop, comment, leads, signPassed.cons passes,
        trails, .marked (.mk isMark isAttribute)⟩
    next =>
      split at later
      next =>
        obtain ⟨x, _, read, later⟩ := bind_eq_ok later
        obtain ⟨same, rfl⟩ := pure_eq_ok.mp later
        obtain rfl := Option.some.inj same
        obtain ⟨tokens, stop, y, comment, passes, isMember, trails, rfl⟩ := member.sound read
        exact ⟨comments, start, tokens, stop, comment, leads, passes, trails, .member isMember⟩
      next => exact absurd later refuse_ne_ok

/-- An entry is read if nothing follows it that could continue it. -/
theorem nextEntry_of_entry {cursor start stop next : Cursor} {comments tokens : List Token}
    {comment : Option Token} {entry : Entry α}
    (leads : leadingComments cursor = .ok (comments, start))
    (passes : start.Passes tokens stop)
    (ends : stop.kind ∉ memberFollow)
    (trails : trailingComment stop = .ok (comment, next))
    (isEntry
      : CommentedEntry member
          (Documentation.extend? (Documentation.ofTokens? comments) comment) tokens entry)
    : nextEntry expected member.read cursor = .ok (some entry, next) := by
  refine bind_eq_ok_iff.mpr ⟨comments, start, leads, ?_⟩
  rw [peekKind_bind]
  cases isEntry with
  | member isMember =>
      obtain ⟨word, back, rfl, isWord⟩ := member.begins isMember
      rw [passes.kind_eq, if_neg (Token.kind_ne_of_isWord isWord rfl),
        if_neg (Token.kind_ne_of_isWord isWord rfl),
        if_pos (show word.kind.isWord = true from isWord)]
      exact bind_eq_ok_iff.mpr
        ⟨_, next, member.complete isMember passes ends trails, rfl⟩
  | marked isMarked =>
      obtain ⟨isMark, isAttribute⟩ := isMarked
      rw [passes.kind_eq, if_neg (by simp [isMark]), if_pos isMark]
      obtain ⟨middle, signPassed, bodyPassed⟩ := passes.uncons
      have bodyEnds : stop.kind ∉ [.dot, .leftParen] := by
        simp only [memberFollow] at ends
        grind
      have read := complete_attributeBody isAttribute bodyPassed bodyEnds
      refine bind_eq_ok_iff.mpr ⟨_, middle, token_eq_ok.mpr ⟨isMark, signPassed⟩, ?_⟩
      refine bind_eq_ok_iff.mpr ⟨_, stop, read, ?_⟩
      exact bind_eq_ok_iff.mpr ⟨comment, next, trails, rfl⟩

/-- Entries that are read have a derivation, by induction on the run. The induction starts in
front of the comment that trails the last token.
-/
theorem entries_of_repeats {cursor middle next : Cursor} {trails : Option Token}
    {entries : List (Entry α)}
    (trailed : trailingComment cursor = .ok (trails, middle))
    (run : Repeats (nextEntry expected member.read) middle entries next)
    : ∃ tokens,
        cursor.Passes tokens next
        ∧ CommentedEntries member cursor.previous tokens entries
        ∧ next.kind = .rightBrace := by
  induction run generalizing cursor trails with
  | stop last =>
      obtain ⟨leads, read, closes⟩ := nextEntry_none_iff.mp last
      obtain ⟨comments, passes, areComments, -⟩ := comments_eq_ok.mp ⟨_, trailed, read⟩
      exact ⟨comments, passes, .done areComments, closes⟩
  | step head _ ih =>
      obtain ⟨leads, start, tokens, stop, comment, read, passes, trails', isEntry⟩ :=
        entry_of_nextEntry head
      obtain ⟨comments, passed, areComments, -, -, rfl⟩ := comments_eq_ok.mp ⟨_, trailed, read⟩
      obtain ⟨rest, restPassed, areEntries, closes⟩ := ih trails'
      obtain ⟨rfl, -⟩ := trailingComment_eq_ok.mp trails'
      have notEmpty : tokens ≠ [] := by
        obtain ⟨_, _, rfl, -⟩ := isEntry.uncons
        exact List.cons_ne_nil _ _
      have isLast : tokens.getLast? = some stop.previous := by
        rw [passes.previous, List.getLast?_eq_some_getLast notEmpty, Option.getD_some]
      have behind : trailing? stop.previous stop.rest = trailing? stop.previous rest := by
        rw [restPassed.rest]
        refine trailing?_append fun token member => ?_
        rw [Option.mem_def] at member
        simp only [Cursor.kind, member, Option.elim_some] at closes
        simp [closes]
      exact ⟨comments ++ (tokens ++ rest), passed.trans (passes.trans restPassed),
        .entry areComments (behind ▸ isEntry) isLast areEntries, closes⟩

/-- Entries are read up to the closing brace, by induction on their derivation. -/
theorem repeats_of_entries {previous : Token} {tokens : List Token}
    {entries : List (Entry α)} (areEntries : CommentedEntries member previous tokens entries)
    {cursor next : Cursor} (same : cursor.previous = previous)
    (passes : cursor.Passes tokens next) (closes : next.kind = .rightBrace)
    : cursor.kind ∉ memberFollow
      ∧ ∃ middle,
          trailingComment cursor = .ok (trailing? previous tokens, middle)
          ∧ Repeats (nextEntry expected member.read) middle entries next := by
  induction areEntries generalizing cursor with
  | done areComments =>
      obtain ⟨middle, trailed, leads⟩ := comments_eq_ok.mpr
        ⟨_, passes, areComments, by simp [closes], rfl, rfl⟩
      refine ⟨notMem_memberFollow ?_, middle, same ▸ trailed,
        .stop (nextEntry_none_iff.mpr ⟨_, leads, closes⟩)⟩
      rcases kind_of_comments passes areComments with stands | stands
      · exact Or.inl stands
      · exact Or.inr (Or.inl (stands.trans closes))
  | entry areComments isEntry isLast _ ih =>
      subst same
      obtain ⟨start, commentsPassed, passes'⟩ := passes.split
      obtain ⟨stop, entryPassed, restPassed⟩ := passes'.split
      obtain ⟨ends, behind, trailed', run⟩ :=
        ih (entryPassed.previous_of_getLast? isLast) restPassed
      obtain ⟨first, back, rfl, begins⟩ := isEntry.uncons
      have notComment : first.kind ≠ .docComment := by
        rcases begins with isWord | isMark
        · exact Token.kind_ne_of_isWord isWord rfl
        · simp [isMark]
      obtain ⟨middle, trailed, leads⟩ := comments_eq_ok.mpr
        ⟨_, commentsPassed, areComments, entryPassed.kind_eq ▸ notComment, rfl, rfl⟩
      refine ⟨notMem_memberFollow ?_, middle, ?_,
        .step (nextEntry_of_entry leads entryPassed ends trailed' isEntry) run⟩
      · rcases kind_of_comments commentsPassed areComments with stands | stands
        · exact Or.inl stands
        · rw [stands, entryPassed.kind_eq]
          exact Or.inr (Or.inr begins.symm)
      · rw [trailed, trailing?_append (by simpa using notComment)]

end Entries

end Production

end SchemaDoc
