import SchemaDoc.Proofs.CorrectPrefix
import SchemaDoc.Proofs.Walk.Declarations

/-! Any token list is read safely.
What reads the tokens by their positions gives what reads them off a list, and it checks every step,
so no token is looked up where none stands and no loop stands still.
-/

namespace SchemaDoc

/-- The tokens up to the first end of the input, as they are read by position. -/
theorem exists_input (tokens : List Token) (size : Nat)
    (ordered : ∀ token ∈ tokens, token.span.start ≤ token.span.stop)
    : ∃ input : Input,
        input.tokens = Token.ended tokens size
        ∧ input.front = Token.beforeEnd tokens
        ∧ input.ending = Token.firstEnd tokens size := by
  obtain ⟨behind, split, isEnd⟩ := Token.ended_eq tokens size
  refine ⟨⟨Token.beforeEnd tokens, Token.firstEnd tokens size, behind,
    fun token isMember => Token.notEnd_of_mem_beforeEnd isMember, isEnd, ?_⟩, split.symm, rfl, rfl⟩
  intro token isMember
  rw [← split] at isMember
  rcases Token.mem_ended isMember with isSignificant | rfl
  · exact ordered token (List.mem_filter.mp isSignificant).1
  · exact Nat.le_refl size

/-- The first token is reached without passing any. -/
theorem Input.reaches_front (input : Input) (last : Token)
    : input.Reaches 0 ⟨last, input.front⟩ ∧ input.position ⟨last, input.front⟩ = 0 :=
  ⟨⟨[], rfl, Nat.zero_le _, by simp⟩, Nat.sub_self _⟩

/-- The token that an error stands at starts before it stops. -/
theorem Input.place_ordered {input : Input} {fault : Fault}
    (failed : Production.declarations ⟨input.ending, input.front⟩ = .error fault)
    : (fault.place input.ending).span.start ≤ (fault.place input.ending).span.stop := by
  refine input.ordered _ ?_
  have isRead := Production.mem_of_declarations_eq_error failed
  cases fault with
  | unexpected expected found =>
      cases found with
      | none => simp [Fault.place]
      | some token => exact List.mem_append_left _ (isRead token rfl)
  | unreadableNumber token => exact List.mem_append_left _ (isRead token rfl)

/-- Whatever the tokens are, if none of them stops before it starts, they are read to a schema or to
an error, and all steps on the way are safe: that is what reading by position checks. It ends at a
token. The byte range of an error does not stop before it starts.
-/
theorem reading_is_safe (tokens : List Token) (size : Nat)
    (ordered : ∀ token ∈ tokens, token.span.start ≤ token.span.stop)
    : (∃ schema last,
          Schema.ofTokens tokens size = .ok schema
          ∧ Walk.schema (Token.ended tokens size) 0 = .ok (schema, last)
          ∧ last < (Token.ended tokens size).length)
      ∨ ∃ error,
          Schema.ofTokens tokens size = .error error
          ∧ Walk.schema (Token.ended tokens size) 0 = .error (.refused error)
          ∧ error.span.start ≤ error.span.stop := by
  obtain ⟨input, all, front, ending⟩ := exists_input tokens size ordered
  obtain ⟨reaches, atStart⟩ := input.reaches_front input.ending
  have run := (@Mirrors.schema 0).runs reaches
  rw [atStart, all] at run
  rw [Schema.ofTokens, ← front, ← ending]
  rcases read : Production.declarations ⟨input.ending, input.front⟩ with fault | ⟨ds, next⟩
  · refine .inr ⟨.ofFault fault input.ending, rfl, ?_, input.place_ordered read⟩
    rw [run, Production.bind_of_error read]
    rfl
  · have schemaRead := Production.bind_of_ok (f := fun ds => pure (Schema.ofDeclarations ds)) read
    refine .inl ⟨.ofDeclarations ds, input.position next, rfl, ?_, ?_⟩
    · rw [run, schemaRead]
      rfl
    · rw [← all]
      exact ((@Mirrors.schema 0).reaches_of_read reaches schemaRead).position_lt

/-- Tokens out of order: an end of the input with a text, and a keyword that ends nowhere. -/
def misplacedEnd : List Token :=
  [⟨.endOfInput, "enum", 7, 3, ⟨9, 12⟩⟩, ⟨.comment, "", 0, 0, ⟨5, 5⟩⟩, ⟨.model, "", 2, 1, ⟨4, 4⟩⟩]

/-- Nothing behind the end is read, though it is not where the tokens end. -/
theorem misplacedEnd_is_read
    : ∃ last,
        Walk.schema (Token.ended misplacedEnd 0) 0 = .ok (⟨[], []⟩, last)
        ∧ last < (Token.ended misplacedEnd 0).length := by
  have read : Schema.ofTokens misplacedEnd 0 = .ok ⟨[], []⟩ := by
    have nothing : Production.declarations ⟨Token.firstEnd misplacedEnd 0, []⟩
        = .ok ([], ⟨Token.firstEnd misplacedEnd 0, []⟩) := by
      rw [Production.declarations, Production.repeated_eq]
      rfl
    have atOnce : Token.beforeEnd misplacedEnd = [] := rfl
    rw [Schema.ofTokens, atOnce]
    simp only [nothing]
    rfl
  rcases reading_is_safe misplacedEnd 0 (by decide) with
    ⟨schema, last, read', run, isInside⟩ | ⟨error, failed, -⟩
  · obtain rfl := Except.ok.inj (read.symm.trans read')
    exact ⟨last, run, isInside⟩
  · exact absurd (read.symm.trans failed) (by simp)

end SchemaDoc
