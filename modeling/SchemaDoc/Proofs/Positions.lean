import SchemaDoc.Proofs.Placement

/-! Lines and columns are what the text in front of a place counts.
A scan goes along the text and never looks back, so where it stands is behind what it has passed.
Every token begins at such a place, and every error stands at one. Places keep what is counted in
32 bits, and as long as that is enough, they have the very line and column.
-/

namespace SchemaDoc

open String (utf8Len)

-----------------------------------------------------------------------------------------
-- Places of a text
-----------------------------------------------------------------------------------------

namespace Position

/-- A place of a text: its offset is the size of the text in front of it, and its line and column
are what that text counts, modulo the width of their counters.
-/
def IsIn (text : String) (position : Position) : Prop :=
  ∃ before after, text.toList = before ++ after ∧ position = behind before

/-- A place of a text with the very line and column that the text in front of its offset counts. -/
def IsExactIn (text : String) (position : Position) : Prop :=
  ∃ before after,
    text.toList = before ++ after
    ∧ position.offset = utf8Len before
    ∧ position.counts = .behind before

/-- One place of a text comes before another: in front of it an earlier line is counted, or an
earlier column of one line.
-/
def PrecedesIn (text : String) (a b : Position) : Prop :=
  ∃ before between after,
    text.toList = before ++ (between ++ after)
    ∧ a = behind before
    ∧ b = behind (before ++ between)
    ∧ (Counts.behind before).Precedes (.behind (before ++ between))

variable {text : String} {a b position : Position}

theorem IsIn.isExactIn (isIn : position.IsIn text) (fit : Counts.FitIn text)
    : position.IsExactIn text := by
  obtain ⟨before, after, split, rfl⟩ := isIn
  exact ⟨before, after, split, rfl, counts_behind (fit before after split)⟩

/-- Where counts fit, places that come one before the other also say so. -/
theorem PrecedesIn.counts (precedes : a.PrecedesIn text b) (fit : Counts.FitIn text)
    : a.counts.Precedes b.counts := by
  obtain ⟨before, between, after, split, rfl, rfl, isLess⟩ := precedes
  rwa [counts_behind (fit before _ split),
    counts_behind (fit (before ++ between) after (by rw [split, List.append_assoc]))]

end Position

/-- Where an error stands. -/
def SourceError.position : SourceError → Position
  | unknownCharacter skipped => skipped.position
  | malformed error => ⟨error.span.start, error.line, error.column⟩

-----------------------------------------------------------------------------------------
-- Tokens
-----------------------------------------------------------------------------------------

theorem position_isIn_of_mem_tokenize {text : String} {token : Token}
    (isMember : token ∈ tokenize text)
    : token.position.IsIn text := by
  obtain ⟨before, after, split, place⟩ :=
    (scans_tokenize text).position_eq_after token isMember
  exact ⟨before, after, split, place.trans (Position.after_start before)⟩

/-- Tokens begin one after the other, since none but the last is empty. -/
theorem tokenize_ordered (text : String)
    : (tokenize text).Pairwise fun a b => a.position.PrecedesIn text b.position := by
  refine (scans_tokenize text).apart.imp fun {a b} apart => ?_
  obtain ⟨before, between, apart⟩ := apart
  obtain ⟨after, split⟩ := apart.split
  obtain ⟨first, second⟩ := apart.positions
  exact ⟨before, between, after, split, first, second,
    Counts.precedes_append before apart.notEmpty⟩

/-- Among the tokens of a text is its end. -/
theorem exists_ending_mem_tokenize (text : String)
    : ∃ token ∈ tokenize text, token.position = .behind text.toList := by
  obtain ⟨front, split, -⟩ := (scans_tokenize text).ending_eq
  exact ⟨.ending (Position.start.after text.toList), by rw [split]; exact List.mem_concat_self,
    Position.after_start _⟩

/-- There is a line that is too long: behind 2 ^ 32 blanks a text does not end in the column that
is counted there, which counters of 32 bits cannot hold.
-/
theorem not_forall_isExactIn
    : ¬∀ text, ∀ token ∈ tokenize text, token.position.IsExactIn text := by
  intro exact
  -- The number of blanks must not be computed with, so it gets a name.
  obtain ⟨n, isSize⟩ : ∃ n, n = UInt32.size := ⟨_, rfl⟩
  let blanks := List.replicate n ' '
  obtain ⟨token, isMember, place⟩ := exists_ending_mem_tokenize (.ofList blanks)
  obtain ⟨before, after, split, offset, counted⟩ := exact _ token isMember
  rw [String.toList_ofList] at place split
  rw [place] at offset counted
  obtain rfl : blanks = before :=
    prefix_eq_of_utf8Len_eq List.prefix_rfl ⟨after, split.symm⟩ offset
  have column := congrArg Counts.column counted
  have small := (Position.behind blanks).column.toNat_lt_size
  have tooLarge : (Counts.behind blanks).column = n + 1 := by simp [Counts.behind, blanks]
  simp only [Position.counts, tooLarge] at column
  omega

-----------------------------------------------------------------------------------------
-- Errors
-----------------------------------------------------------------------------------------

/-- A text has an end of its own, so no other one is put behind its tokens. -/
theorem Token.mem_tokenize_of_mem_ended {text : String} {size : Nat} {token : Token}
    (isMember : token ∈ Token.ended (tokenize text) size)
    : token ∈ tokenize text := by
  obtain ⟨front, split, -⟩ := (scans_tokenize text).ending_eq
  have isLast : (Token.significant (tokenize text)).getLast?
      = some (.ending (Position.start.after text.toList)) := by
    rw [split, Token.significant, List.filter_append]
    exact List.getLast?_append.trans rfl
  have ends : (some (Token.ending (Position.start.after text.toList))).any
      (·.kind = .endOfInput) = true :=
    rfl
  rw [Token.ended, isLast, if_pos ends] at isMember
  exact (List.mem_filter.mp isMember).1

theorem Schema.position_isIn_of_malformed {text : String} {error : SyntaxError}
    (failed : ofTokens (tokenize text) text.utf8ByteSize = .error error)
    : (SourceError.malformed error).position.IsIn text := by
  obtain ⟨i, blames⟩ := exists_blames failed
  obtain ⟨token, stands, isAt⟩ := blames.located
  have isToken := Token.mem_tokenize_of_mem_ended (List.mem_of_getElem? stands)
  have same : (SourceError.malformed error).position = token.position := by
    rw [SourceError.position, Token.position, isAt.span, isAt.line, isAt.column]
  rw [same]
  exact position_isIn_of_mem_tokenize isToken

theorem FirstSkipped.position_isIn {text : String} {skipped : Skipped}
    (isFirst : FirstSkipped text skipped)
    : skipped.position.IsIn text := by
  obtain ⟨before, ⟨⟨after, split⟩, -, -⟩, place, -⟩ := isFirst
  exact ⟨before, skipped.character :: after, split, place⟩

theorem Schema.position_isIn_of_error {strict : Bool} {text : String} {error : SourceError}
    (failed : ofText strict text = .error error)
    : error.position.IsIn text := by
  rcases ofText_error_cases failed with ⟨error, rfl, malformed⟩ | ⟨skipped, rfl, isFirst⟩
  · exact position_isIn_of_malformed malformed
  · exact isFirst.position_isIn

/-- Lines and columns are right. Every token of a text, and every error of either way of reading
it, has the line and the column that the text in front of its own offset counts, modulo the width
of their counters; and what is counted goes up from token to token. Where no count overflows, they
have the very line and column, which then go up themselves.
-/
theorem positions_right (text : String)
    : (∀ token ∈ tokenize text, token.position.IsIn text)
      ∧ (tokenize text).Pairwise (fun a b => a.position.PrecedesIn text b.position)
      ∧ (∀ strict error,
          Schema.ofText strict text = .error error → error.position.IsIn text)
      ∧ (Counts.FitIn text
        → (∀ token ∈ tokenize text, token.position.IsExactIn text)
          ∧ (tokenize text).Pairwise (fun a b => a.position.counts.Precedes b.position.counts)
          ∧ ∀ strict error,
              Schema.ofText strict text = .error error → error.position.IsExactIn text) := by
  refine ⟨fun _ isMember => position_isIn_of_mem_tokenize isMember, tokenize_ordered text,
    fun _ _ failed => Schema.position_isIn_of_error failed, fun fit => ⟨?_, ?_, ?_⟩⟩
  · intro token isMember
    exact (position_isIn_of_mem_tokenize isMember).isExactIn fit
  · exact (tokenize_ordered text).imp fun precedes => precedes.counts fit
  · intro strict error failed
    exact (Schema.position_isIn_of_error failed).isExactIn fit

/-- A letter of two bytes is one column, and the line break in a string counts. -/
theorem positions_right_around_string
    : let text := "model A \x7b é\n \"\r\n\" \x7d"
      let skipped : Skipped := ⟨'é', ⟨10, 1, 11⟩⟩
      let string : Token := ⟨.string, "\r\n", 2, 2, ⟨14, 18⟩⟩
      let error : SyntaxError := ⟨.unexpected .fieldOrAttribute (some string), 2, 2, ⟨14, 18⟩⟩
      (tokenize text).map Token.position
          = [⟨0, 1, 1⟩, ⟨6, 1, 7⟩, ⟨8, 1, 9⟩, ⟨12, 1, 12⟩, ⟨14, 2, 2⟩, ⟨19, 3, 3⟩, ⟨20, 3, 4⟩]
        ∧ (∀ token ∈ tokenize text, token.position.IsExactIn text)
        ∧ (Schema.ofText true text = .error (.unknownCharacter skipped)
          ∧ skipped.position.IsExactIn text)
        ∧ Schema.ofText false text = .error (.malformed error)
        ∧ (SourceError.malformed error).position.IsExactIn text := by
  intro text skipped string error
  have refused : Schema.ofText true text = .error (.unknownCharacter skipped) := by
    decide +kernel
  have failed : Schema.ofText false text = .error (.malformed error) := by decide +kernel
  have fit : Counts.FitIn text := Counts.fitIn_of_length_lt (by decide +kernel)
  obtain ⟨-, -, -, exact⟩ := positions_right text
  obtain ⟨tokens, -, errors⟩ := exact fit
  exact ⟨by decide +kernel, tokens, ⟨refused, errors _ _ refused⟩, failed, errors _ _ failed⟩

end SchemaDoc
