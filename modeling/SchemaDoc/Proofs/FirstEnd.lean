import SchemaDoc.Proofs.CorrectPrefix
import SchemaDoc.Proofs.Walk.Barrier

/-! The first end of the input is where reading ends.
What is behind it has no part in what is read, and where it is missing, an end behind the last token
is as good as one that is there.
-/

namespace SchemaDoc

-----------------------------------------------------------------------------------------
-- Tokens in front of the first end
-----------------------------------------------------------------------------------------

namespace Token

variable {front rest : List Token} {ending : Token} {size : Nat}

theorem find?_significant_of_noEnd (noEnd : ∀ token ∈ front, token.kind ≠ .endOfInput)
    : (significant front).find? (·.kind = .endOfInput) = none := by
  rw [List.find?_eq_none]
  intro token isMember
  simpa using noEnd token (List.mem_filter.mp isMember).1

theorem firstEnd_of_noEnd (noEnd : ∀ token ∈ front, token.kind ≠ .endOfInput)
    : firstEnd front size = addedEnd (significant front) size := by
  rw [firstEnd_eq, find?_significant_of_noEnd noEnd, Option.getD_none]

theorem firstEnd_append_cons (isEnd : ending.kind = .endOfInput)
    (noEnd : ∀ token ∈ front, token.kind ≠ .endOfInput)
    : firstEnd (front ++ ending :: rest) size = ending := by
  rw [firstEnd_eq, significant_append_cons isEnd, List.find?_append,
    find?_significant_of_noEnd noEnd, Option.none_or, List.find?_cons_of_pos (by simp [isEnd]),
    Option.getD_some]

/-- The tokens that are read by position, split at an end that is there. -/
theorem exists_endBehind (isEnd : ending.kind = .endOfInput)
    (noEnd : ∀ token ∈ front, token.kind ≠ .endOfInput)
    : ∃ input : EndBehind (significant front),
        input.ending = ending ∧ input.tokens = ended (front ++ ending :: rest) size := by
  obtain ⟨behind, split, -⟩ := ended_eq (front ++ ending :: rest) size
  rw [beforeEnd_append_cons isEnd noEnd, firstEnd_append_cons isEnd noEnd] at split
  exact ⟨⟨ending, behind, isEnd⟩, rfl, split.symm⟩

/-- The tokens that are read by position, split at the end that is added. -/
theorem exists_endBehind_added (noEnd : ∀ token ∈ front, token.kind ≠ .endOfInput)
    : ∃ input : EndBehind (significant front),
        input.ending = addedEnd (significant front) size ∧ input.tokens = ended front size := by
  obtain ⟨behind, split, -⟩ := ended_eq front size
  rw [beforeEnd_of_noEnd noEnd, firstEnd_of_noEnd noEnd] at split
  exact ⟨⟨_, behind, rfl⟩, rfl, split.symm⟩

end Token

-----------------------------------------------------------------------------------------
-- Errors at the end
-----------------------------------------------------------------------------------------

/-- A fault at the end of the input. -/
def Fault.IsAtEnd (fault : Fault) : Prop := ∃ expected, fault = .unexpected expected none

/-- A fault that is not at the end has its place whatever the end is. -/
theorem SyntaxError.ofFault_eq {fault : Fault} (notAtEnd : ¬fault.IsAtEnd) (ending ending' : Token)
    : ofFault fault ending = ofFault fault ending' := by
  refine ofFault_congr ?_
  cases fault with
  | unreadableNumber token => rfl
  | unexpected expected found =>
      cases found with
      | none => exact absurd ⟨expected, rfl⟩ notAtEnd
      | some token => rfl

namespace Schema

theorem exists_fault {tokens : List Token} {size : Nat} {error : SyntaxError}
    (failed : ofTokens tokens size = .error error)
    : ∃ fault,
        Production.declarations ⟨Token.firstEnd tokens size, Token.beforeEnd tokens⟩ = .error fault
        ∧ error = .ofFault fault (Token.firstEnd tokens size) := by
  simp only [ofTokens] at failed
  split at failed
  next => simp at failed
  next fault read => exact ⟨fault, read, (Except.error.inj failed).symm⟩

variable {front rest : List Token} {ending : Token} {size : Nat}

/-- Lists with the same tokens in front of their first ends are the same schema, if they are one. -/
theorem ofTokens_eq_ok_iff_of_beforeEnd {tokens tokens' : List Token}
    (same : Token.beforeEnd tokens = Token.beforeEnd tokens') (schema : Schema)
    : ofTokens tokens size = .ok schema ↔ ofTokens tokens' size = .ok schema := by
  rw [ofTokens_eq_ok, ofTokens_eq_ok, same]

/-- Lists with the same tokens in front of their first ends have the same fault, if they have one.
-/
theorem ofTokens_eq_error_of_beforeEnd {tokens tokens' : List Token}
    (same : Token.beforeEnd tokens = Token.beforeEnd tokens') {error : SyntaxError}
    (failed : ofTokens tokens size = .error error)
    : error = .ofFault error.fault (Token.firstEnd tokens size)
      ∧ ofTokens tokens' size = .error (.ofFault error.fault (Token.firstEnd tokens' size)) := by
  obtain ⟨fault, faulty, rfl⟩ := exists_fault failed
  have failed' := Production.declarations_eq_error faulty (Token.firstEnd tokens' size)
  rw [same] at failed'
  exact ⟨rfl, ofTokens_eq_error failed'⟩

end Schema

/-- The first end of the input is a barrier: what is behind it changes nothing in what is read, and
it changes no step of reading by position, where the list is not cut off at that end. A missing end
is harmless: with and without it the same tokens are a schema, and the same schema. If they are
none, the fault is the same in both, and so is what is said of it; the errors are the same, and so
are the ways in which reading by position halts, unless the fault is at the end.
-/
theorem first_end_is_barrier (front rest : List Token) (ending : Token) (size : Nat)
    (noEnd : ∀ token ∈ front, token.kind ≠ .endOfInput) (isEnd : ending.kind = .endOfInput)
    : (Schema.ofTokens (front ++ ending :: rest) size = Schema.ofTokens (front ++ [ending]) size
        ∧ Walk.schema (Token.ended (front ++ ending :: rest) size) 0
          = Walk.schema (Token.ended (front ++ [ending]) size) 0)
      ∧ (∀ schema,
          Schema.ofTokens front size = .ok schema
            ↔ Schema.ofTokens (front ++ [ending]) size = .ok schema)
      ∧ (∀ error,
          Schema.ofTokens front size = .error error
          → ∃ error',
              Schema.ofTokens (front ++ [ending]) size = .error error'
              ∧ error'.fault = error.fault
              ∧ (¬error.fault.IsAtEnd → error' = error))
      ∧ (Walk.schema (Token.ended front size) 0
            = Walk.schema (Token.ended (front ++ [ending]) size) 0
          ∨ ∃ expected,
              Walk.schema (Token.ended front size) 0
                = .error (.refusing (Token.addedEnd (Token.significant front) size)
                    (.unexpected expected none))
              ∧ Walk.schema (Token.ended (front ++ [ending]) size) 0
                = .error (.refusing ending (.unexpected expected none))) := by
  have missing : Token.beforeEnd front = Token.beforeEnd (front ++ [ending]) := by
    rw [Token.beforeEnd_of_noEnd noEnd, Token.beforeEnd_append_cons isEnd noEnd]
  refine ⟨⟨?_, ?_⟩, Schema.ofTokens_eq_ok_iff_of_beforeEnd missing, fun error failed => ?_, ?_⟩
  · rw [Schema.ofTokens, Schema.ofTokens, Token.beforeEnd_append_cons isEnd noEnd,
      Token.beforeEnd_append_cons isEnd noEnd, Token.firstEnd_append_cons isEnd noEnd,
      Token.firstEnd_append_cons isEnd noEnd]
  · obtain ⟨left, rfl, isLeft⟩ := @Token.exists_endBehind front rest ending size isEnd noEnd
    obtain ⟨right, sameEnd, isRight⟩ := @Token.exists_endBehind front [] _ size isEnd noEnd
    rw [← isLeft, ← isRight]
    exact (Walk.Stops.schema left right (Nat.zero_le _)).eq sameEnd.symm
  · obtain ⟨located, failed'⟩ := Schema.ofTokens_eq_error_of_beforeEnd missing failed
    refine ⟨_, failed', rfl, fun notAtEnd => ?_⟩
    rw [SyntaxError.ofFault_eq notAtEnd _ (Token.firstEnd front size), ← located]
  · obtain ⟨left, isAdded, isLeft⟩ := @Token.exists_endBehind_added front size noEnd
    obtain ⟨right, rfl, isRight⟩ := @Token.exists_endBehind front [] ending size isEnd noEnd
    rw [← isLeft, ← isRight, ← isAdded]
    exact (Walk.Stops.schema left right (Nat.zero_le _)).eq_or_atEnd

/-- An argument that is cut off between its name and its colon is not put together again, and what
it lacks is the same with and without the end.
-/
theorem first_end_is_barrier_in_argument
    : let tokens := tokenize "model A { x Int @d(a: b) }"
      let front := tokens.take 9
      let ending : Token := ⟨.endOfInput, "", 7, 3, ⟨5, 5⟩⟩
      let rest := tokens.drop 9
      let cut := front ++ ending :: rest
      let error : SyntaxError := ⟨.unexpected (.token .rightParen) none, 1, 20, ⟨20, 20⟩⟩
      (∀ token ∈ front, token.kind ≠ .endOfInput)
      ∧ ending.kind = .endOfInput
      ∧ Schema.ofTokens front 20 = .error error
      ∧ (∃ error', Schema.ofTokens cut 20 = .error error' ∧ error'.fault = error.fault)
      ∧ Walk.schema (Token.ended cut 20) 0
          = Walk.schema (Token.ended (front ++ [ending]) 20) 0 := by
  intro tokens front ending rest cut error
  have noEnd : ∀ token ∈ front, token.kind ≠ .endOfInput := by decide +kernel
  have failed : Schema.ofTokens front 20 = .error error := by decide +kernel
  obtain ⟨⟨same, sameWalk⟩, -, faulty, -⟩ := first_end_is_barrier front rest ending 20 noEnd rfl
  obtain ⟨error', failed', sameFault, -⟩ := faulty error failed
  exact ⟨noEnd, rfl, failed, ⟨error', same.trans failed', sameFault⟩, sameWalk⟩

end SchemaDoc
