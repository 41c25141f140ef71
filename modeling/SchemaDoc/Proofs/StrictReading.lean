import SchemaDoc.Proofs.Token.Skipping
import SchemaDoc.Schema.Reader

/-! A strict reading of a text agrees with a permissive one until a character is skipped.
Where nothing is skipped the two are the same. Otherwise a strict reading reports the first
skipped character, whatever the grammar would say of the text.
-/

namespace SchemaDoc

theorem FirstSkipped.not_forall_not_skips {text : String} {skipped : Skipped}
    (isFirst : FirstSkipped text skipped)
    : ¬∀ before c, ¬Skips text before c := by
  intro noSkip
  obtain ⟨before, skips, -⟩ := isFirst
  exact noSkip before _ skips

theorem FirstSkipped.unique {text : String} {skipped skipped' : Skipped}
    (isFirst : FirstSkipped text skipped) (isFirst' : FirstSkipped text skipped')
    : skipped = skipped' := by
  have isHead := head?_skipped_eq_some_iff.mpr isFirst
  have isHead' := head?_skipped_eq_some_iff.mpr isFirst'
  exact Option.some.inj (isHead.symm.trans isHead')

theorem tokenizeStrict_eq_ok_iff {text : String} {tokens : List Token}
    : tokenizeStrict text = .ok tokens
      ↔ tokens = tokenize text ∧ ∀ before c, ¬Skips text before c := by
  rw [← skipped_eq_nil_iff, tokenizeStrict]
  cases (Scan.ofText text).skipped with
  | nil => simp [tokenize, eq_comm]
  | cons => simp

theorem tokenizeStrict_eq_error_iff {text : String} {skipped : Skipped}
    : tokenizeStrict text = .error skipped ↔ FirstSkipped text skipped := by
  rw [← head?_skipped_eq_some_iff, tokenizeStrict]
  cases (Scan.ofText text).skipped <;> simp

namespace Schema

/-- A permissive reading knows no unknown characters. -/
theorem ofText_permissive_ne (text : String) (skipped : Skipped)
    : ofText false text ≠ .error (.unknownCharacter skipped) := by
  change (ofTokens (tokenize text) text.utf8ByteSize).mapError _ ≠ _
  cases ofTokens (tokenize text) text.utf8ByteSize <;> simp [Except.mapError]

/-- The two ways in which a strict reading can go. -/
theorem ofText_strict_cases (text : String)
    : ((∀ before c, ¬Skips text before c) ∧ ofText true text = ofText false text)
      ∨ ∃ skipped,
          FirstSkipped text skipped
          ∧ ofText true text = .error (.unknownCharacter skipped) := by
  cases read : tokenizeStrict text with
  | ok tokens =>
      obtain ⟨rfl, noSkip⟩ := tokenizeStrict_eq_ok_iff.mp read
      exact .inl ⟨noSkip, by simp [ofText, read]⟩
  | error skipped =>
      have isFirst := tokenizeStrict_eq_error_iff.mp read
      exact .inr ⟨skipped, isFirst, by simp [ofText, read]⟩

/-- A strict reading gives what a permissive one gives, and only where nothing is skipped. -/
theorem ofText_strict_eq_iff {text : String} {result : Except SourceError Schema}
    (isResult : ∀ skipped, result ≠ .error (.unknownCharacter skipped))
    : ofText true text = result
      ↔ ofText false text = result ∧ ∀ before c, ¬Skips text before c := by
  rcases ofText_strict_cases text with ⟨noSkip, same⟩ | ⟨skipped, isFirst, refused⟩
  · rw [same]
    exact (and_iff_left noSkip).symm
  · rw [refused]
    exact iff_of_false (isResult skipped).symm fun both => isFirst.not_forall_not_skips both.2

/-- A schema that is read at all is read permissively. -/
theorem ofText_permissive_of_ok {strict : Bool} {text : String} {schema : Schema}
    (read : ofText strict text = .ok schema)
    : ofText false text = .ok schema := by
  cases strict with
  | false => exact read
  | true => exact ((ofText_strict_eq_iff fun _ => by simp).mp read).1

/-- An error of either reading is one of the grammar, or the first skipped character. -/
theorem ofText_error_cases {strict : Bool} {text : String} {error : SourceError}
    (failed : ofText strict text = .error error)
    : (∃ e, error = .malformed e ∧ ofTokens (tokenize text) text.utf8ByteSize = .error e)
      ∨ ∃ skipped, error = .unknownCharacter skipped ∧ FirstSkipped text skipped := by
  have permissive (failed : ofText false text = .error error)
      : ∃ e, error = .malformed e ∧ ofTokens (tokenize text) text.utf8ByteSize = .error e := by
    change (ofTokens (tokenize text) text.utf8ByteSize).mapError SourceError.malformed = _ at failed
    cases read : ofTokens (tokenize text) text.utf8ByteSize with
    | ok schema => simp [read, Except.mapError] at failed
    | error e =>
        rw [read] at failed
        exact ⟨e, (Except.error.inj failed).symm, rfl⟩
  cases strict with
  | false => exact .inl (permissive failed)
  | true =>
      rcases ofText_strict_cases text with ⟨-, same⟩ | ⟨skipped, isFirst, refused⟩
      · exact .inl (permissive (same ▸ failed))
      · exact .inr ⟨skipped, (Except.error.inj (refused.symm.trans failed)).symm, isFirst⟩

theorem ofText_strict_eq_unknownCharacter_iff {text : String} {skipped : Skipped}
    : ofText true text = .error (.unknownCharacter skipped) ↔ FirstSkipped text skipped := by
  rcases ofText_strict_cases text with ⟨noSkip, same⟩ | ⟨skipped', isFirst, refused⟩
  · rw [same]
    exact iff_of_false (ofText_permissive_ne text skipped) fun isFirst =>
      isFirst.not_forall_not_skips noSkip
  · rw [refused]
    constructor
    · intro same
      rwa [SourceError.unknownCharacter.inj (Except.error.inj same)] at isFirst
    · intro isFirst'
      rw [isFirst.unique isFirst']

end Schema

/-- A strict scan succeeds where nothing is skipped, with the tokens of a permissive one, and
otherwise refuses the skipped character of least offset. A strict reading then gives the schema
or the syntax error of a permissive one, or that refusal.
-/
theorem strict_agrees_with_permissive (text : String)
    : (∀ tokens,
        tokenizeStrict text = .ok tokens
        ↔ tokens = tokenize text ∧ ∀ before c, ¬Skips text before c)
      ∧ (∀ skipped, tokenizeStrict text = .error skipped ↔ FirstSkipped text skipped)
      ∧ (∀ schema,
          Schema.ofText true text = .ok schema
          ↔ Schema.ofText false text = .ok schema ∧ ∀ before c, ¬Skips text before c)
      ∧ (∀ error,
          Schema.ofText true text = .error (.malformed error)
          ↔ Schema.ofText false text = .error (.malformed error)
            ∧ ∀ before c, ¬Skips text before c)
      ∧ ∀ skipped,
          Schema.ofText true text = .error (.unknownCharacter skipped)
          ↔ FirstSkipped text skipped := by
  refine ⟨fun _ => tokenizeStrict_eq_ok_iff, fun _ => tokenizeStrict_eq_error_iff,
    fun schema => ?_, fun error => ?_, fun _ => Schema.ofText_strict_eq_unknownCharacter_iff⟩
  · exact Schema.ofText_strict_eq_iff fun _ => by simp
  · exact Schema.ofText_strict_eq_iff fun _ => by simp

/-- A skipped character is reported although the grammar already fails in front of it. -/
example : Schema.ofText true "model ] #" = .error (.unknownCharacter ⟨'#', ⟨8, 1, 9⟩⟩) := by
  decide +kernel

end SchemaDoc
