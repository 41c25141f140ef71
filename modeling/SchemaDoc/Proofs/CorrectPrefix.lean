import SchemaDoc.Proofs.Grammar.DecidedDeclarations

/-! A syntax error stands at the first token that no schema can have there.
What follows that token has no part in the error, and what is in front of it begins some schema.
-/

namespace SchemaDoc

open Grammar Production

-----------------------------------------------------------------------------------------
-- Tokens with their end
-----------------------------------------------------------------------------------------

namespace Token

/-- The end of the input behind tokens that do not end in one, in a text of the size given. -/
def addedEnd (tokens : List Token) (size : Nat) : Token where
  kind := .endOfInput
  text := ""
  line := tokens.getLast?.elim 1 Token.line
  column := tokens.getLast?.elim 1 Token.column
  span := ⟨size, size⟩

/-- The significant tokens, with an end of the input behind them unless they end in one. -/
def ended (tokens : List Token) (size : Nat) : List Token :=
  let significant := significant tokens
  if significant.getLast?.any (·.kind = .endOfInput) then significant
  else significant ++ [addedEnd significant size]

theorem firstEnd_eq (tokens : List Token) (size : Nat)
    : firstEnd tokens size
      = ((significant tokens).find? (·.kind = .endOfInput)).getD
          (addedEnd (significant tokens) size) :=
  rfl

/-- The first end of the input stands behind the tokens that count. -/
theorem ended_eq (tokens : List Token) (size : Nat)
    : ∃ behind,
        ended tokens size = beforeEnd tokens ++ firstEnd tokens size :: behind
        ∧ (firstEnd tokens size).kind = .endOfInput := by
  rw [firstEnd_eq, beforeEnd, ended]
  generalize significant tokens = tokens
  cases found : tokens.find? (·.kind = .endOfInput) with
  | some ending =>
      obtain ⟨ends, front, behind, rfl, notEnds⟩ := List.find?_eq_some_iff_append.mp found
      have frontKept : (front ++ ending :: behind).takeWhile (·.kind ≠ .endOfInput) = front := by
        rw [takeWhile_append_cons (by simpa using ends), List.takeWhile_eq_self_iff]
        simpa using notEnds
      rw [frontKept]
      split
      · exact ⟨behind, rfl, of_decide_eq_true ends⟩
      · exact ⟨behind ++ [_], by rw [List.append_assoc, List.cons_append]; rfl,
          of_decide_eq_true ends⟩
  | none =>
      have notEnds : ∀ token ∈ tokens, token.kind ≠ .endOfInput := by simpa using found
      have kept : tokens.takeWhile (·.kind ≠ .endOfInput) = tokens :=
        List.takeWhile_eq_self_iff.mpr fun token isMember => by simpa using notEnds token isMember
      have noEnd : ¬tokens.getLast?.any (·.kind = .endOfInput) = true := by
        simp only [Option.any_eq_true, decide_eq_true_eq, not_exists, not_and]
        exact fun last isLast => notEnds last (List.mem_of_getLast? isLast)
      rw [kept]
      exact ⟨[], by rw [if_neg noEnd]; rfl, rfl⟩

theorem mem_ended {tokens : List Token} {size : Nat} {token : Token}
    (isMember : token ∈ ended tokens size)
    : token ∈ significant tokens ∨ token = addedEnd (significant tokens) size := by
  rw [ended] at isMember
  split at isMember
  next => exact Or.inl isMember
  next => simpa using isMember

theorem notTrivia_of_mem_ended {tokens : List Token} {size : Nat} {token : Token}
    (isMember : token ∈ ended tokens size)
    : token.isTrivia = false := by
  rcases mem_ended isMember with isSignificant | rfl
  · simpa using (List.mem_filter.mp isSignificant).2
  · rfl

/-- What is significant stays in front, whatever stands behind it. -/
theorem ended_append_take {front more : List Token} {size : Nat}
    (areSignificant : ∀ token ∈ front, token.isTrivia = false)
    : (ended (front ++ more) size).take front.length = front := by
  have kept : significant front = front :=
    List.filter_eq_self.mpr fun token isMember => by simp [areSignificant token isMember]
  have split : significant (front ++ more) = front ++ significant more := by
    rw [significant, List.filter_append, ← significant, kept]
    rfl
  rw [ended, split]
  split <;> simp

/-- In front of a token that is no end of the input, only what counts stands. -/
theorem beforeEnd_of_ended {tokens front behind : List Token} {size : Nat} {token : Token}
    (split : ended tokens size = front ++ token :: behind)
    (noEnd : ∀ t ∈ front, t.kind ≠ .endOfInput)
    : if token.kind = .endOfInput
      then beforeEnd tokens = front ∧ firstEnd tokens size = token
      else ∃ rest, beforeEnd tokens = front ++ token :: rest := by
  obtain ⟨behind', split', ends⟩ := ended_eq tokens size
  rcases split_of_append_eq (split'.symm.trans split) with
    ⟨more, inFront, -⟩ | ⟨_ | ⟨first, more⟩, rfl, atEnd⟩
  · have isMember : token ∈ beforeEnd tokens := by simp [inFront]
    rw [if_neg (notEnd_of_mem_beforeEnd isMember)]
    exact ⟨more, inFront⟩
  · obtain ⟨rfl, -⟩ := List.cons.inj atEnd
    rw [if_pos ends, List.append_nil]
    exact ⟨rfl, rfl⟩
  · obtain ⟨rfl, -⟩ := List.cons.inj atEnd
    exact absurd ends (noEnd _ (by simp))

end Token

-----------------------------------------------------------------------------------------
-- The token before the first one
-----------------------------------------------------------------------------------------

namespace Production

variable {α : Type}

/-- Behind a token that is taken, the one before it is not seen. -/
theorem token_bind_congr (kind : TokenKind) (f : Token → Production α) (last last' : Token)
    (ahead : List Token)
    : (token kind >>= f) ⟨last, ahead⟩ = (token kind >>= f) ⟨last', ahead⟩ := by
  cases ahead with
  | nil => rfl
  | cons found ahead => simp only [Bind.bind, token, satisfying]

theorem bind_congr {β : Type} {p : Production α} {c c' : Cursor} (same : p c = p c')
    (f : α → Production β)
    : (p >>= f) c = (p >>= f) c' := by
  simp only [Bind.bind, same]

/-- The token before the first declaration has no part in how it is read. -/
theorem nextDeclaration_congr (last last' : Token) (ahead : List Token)
    : nextDeclaration ⟨last, ahead⟩ = nextDeclaration ⟨last', ahead⟩
      ∨ ∃ next, nextDeclaration ⟨last, ahead⟩ = .ok (none, next) := by
  by_cases isComment : (⟨last, ahead⟩ : Cursor).kind = .docComment
  · left
    refine bind_congr ?_ _
    cases ahead with
    | nil => simp [Cursor.kind] at isComment
    | cons comment ahead =>
        replace isComment : comment.kind = .docComment := isComment
        simp [leadingComments, takeWhile, isComment, List.getLast?_cons]
  · have leads (last : Token) : leadingComments ⟨last, ahead⟩ = .ok ([], ⟨last, ahead⟩) :=
      leadingComments_eq_ok.mpr ⟨.refl _, by simp, isComment⟩
    have skipped (f : List Token → Production (Option Declaration)) (last : Token)
        : (leadingComments >>= f) ⟨last, ahead⟩ = f [] ⟨last, ahead⟩ := by
      simp only [Bind.bind, leads]
    rw [nextDeclaration, skipped, skipped, peekKind_bind, peekKind_bind]
    have sameKind : (⟨last', ahead⟩ : Cursor).kind = (⟨last, ahead⟩ : Cursor).kind := rfl
    rw [sameKind]
    generalize (⟨last, ahead⟩ : Cursor).kind = kind
    split
    next => exact Or.inr ⟨_, rfl⟩
    next => exact Or.inl (bind_congr (bind_congr (token_bind_congr ..) _) _)
    next => exact Or.inl (bind_congr (bind_congr (token_bind_congr ..) _) _)
    next => exact Or.inl (bind_congr (token_bind_congr ..) _)
    next => exact Or.inl (bind_congr (token_bind_congr ..) _)
    next => exact Or.inl rfl

/-- The token before the first declaration has no part in what is at fault. -/
theorem declarations_eq_error {last : Token} {ahead : List Token} {fault : Fault}
    (failed : declarations ⟨last, ahead⟩ = .error fault) (last' : Token)
    : declarations ⟨last', ahead⟩ = .error fault := by
  rw [declarations, repeated_eq_bind] at failed ⊢
  rcases nextDeclaration_congr last last' ahead with same | ⟨next, stopped⟩
  · rwa [← bind_congr same]
  · simp [Bind.bind, stopped, Pure.pure] at failed

end Production

-----------------------------------------------------------------------------------------
-- Errors
-----------------------------------------------------------------------------------------

theorem Fault.place_eq (fault : Fault) (ending : Token)
    : fault.place ending = fault.token?.getD ending := by
  cases fault <;> rfl

namespace SyntaxError

/-- An error is located at a token. -/
structure IsAt (error : SyntaxError) (token : Token) : Prop where
  line : error.line = token.line
  column : error.column = token.column
  span : error.span = token.span

theorem isAt_ofFault (fault : Fault) (ending : Token)
    : (ofFault fault ending).IsAt (fault.place ending) :=
  ⟨rfl, rfl, rfl⟩

theorem ofFault_congr {fault : Fault} {ending ending' : Token}
    (same : fault.place ending = fault.place ending')
    : ofFault fault ending = ofFault fault ending' := by
  rw [ofFault, ofFault, same]

/-- An error is located at the token at a position, where the end of the input counts. -/
def StandsAt (error : SyntaxError) (tokens : List Token) (size i : Nat) : Prop :=
  ∃ token, (Token.ended tokens size)[i]? = some token ∧ error.IsAt token

/-- An error blames the token at a position: it is located there, it is the same whatever follows
that token, and what is in front of the token begins some schema.
-/
structure Blames (error : SyntaxError) (tokens : List Token) (size i : Nat) : Prop where
  located : error.StandsAt tokens size i
  decided : ∀ {others : List Token} {size' : Nat},
    (Token.ended others size').take (i + 1) = (Token.ended tokens size).take (i + 1)
    → Schema.ofTokens others size' = .error error
  viable : ∃ more schema,
    Schema.ofTokens ((Token.ended tokens size).take i ++ more) size = .ok schema

variable {error : SyntaxError} {tokens : List Token} {size : Nat}

/-- No error blames two tokens: what is in front of the later one could not begin a schema. -/
theorem Blames.not_lt {i j : Nat} (blames : error.Blames tokens size i)
    (blames' : error.Blames tokens size j)
    : ¬i < j := by
  intro earlier
  obtain ⟨token, stands, -⟩ := blames.located
  obtain ⟨more, schema, read⟩ := blames'.viable
  obtain ⟨short, -⟩ := List.getElem?_eq_some_iff.mp stands
  have kept := @Token.ended_append_take ((Token.ended tokens size).take j) more size
    fun token isMember => Token.notTrivia_of_mem_ended (List.mem_of_mem_take isMember)
  have shared : (Token.ended ((Token.ended tokens size).take j ++ more) size).take (i + 1)
      = (Token.ended tokens size).take (i + 1) := by
    have within : i + 1 ≤ ((Token.ended tokens size).take j).length := by
      rw [List.length_take]
      omega
    have cut := congrArg (List.take (i + 1)) kept
    rw [List.take_take, List.take_take] at cut
    rwa [Nat.min_eq_left within, Nat.min_eq_left (show i + 1 ≤ j by omega)] at cut
  simp [blames.decided shared] at read

theorem Blames.unique {i j : Nat} (blames : error.Blames tokens size i)
    (blames' : error.Blames tokens size j)
    : i = j :=
  Nat.le_antisymm (Nat.le_of_not_lt (blames'.not_lt blames))
    (Nat.le_of_not_lt (blames.not_lt blames'))

end SyntaxError

namespace Schema

variable {tokens front back : List Token} {size : Nat} {fault : Fault}

theorem ofTokens_eq_error
    (failed : declarations ⟨Token.firstEnd tokens size, Token.beforeEnd tokens⟩ = .error fault)
    : ofTokens tokens size = .error (.ofFault fault (Token.firstEnd tokens size)) := by
  simp only [ofTokens, failed]

/-- The token where reading stops stands behind what has been taken. -/
theorem ended_at_fault (counts : Token.beforeEnd tokens = front ++ back)
    (found : fault.token? = back.head?)
    : ∃ rest,
        Token.ended tokens size = front ++ fault.place (Token.firstEnd tokens size) :: rest := by
  obtain ⟨behind, whole, -⟩ := Token.ended_eq tokens size
  rw [whole, counts, List.append_assoc, Fault.place_eq, found]
  cases back with
  | nil => exact ⟨behind, rfl⟩
  | cons token back => exact ⟨_, rfl⟩

/-- A list that shares the tokens up to where reading stops has the same error. There the input
ends in both lists or in neither of them.
-/
theorem ofTokens_of_shared (counts : Token.beforeEnd tokens = front ++ back)
    (found : fault.token? = back.head?)
    (again : ∀ rest,
      rest.head? = back.head?
      → declarations ⟨Token.firstEnd tokens size, front ++ rest⟩ = .error fault)
    {others : List Token} {size' : Nat}
    (shared
      : (Token.ended others size').take (front.length + 1)
        = (Token.ended tokens size).take (front.length + 1))
    : ofTokens others size' = .error (.ofFault fault (Token.firstEnd tokens size)) := by
  obtain ⟨rest, whole⟩ := ended_at_fault counts found
  have same : (Token.ended others size').take (front.length + 1)
      = front ++ [fault.place (Token.firstEnd tokens size)] := by
    rw [shared, whole]
    exact List.take_length_add_append 1
  have whole' := (List.take_append_drop (front.length + 1) (Token.ended others size')).symm
  rw [same, List.append_assoc, List.singleton_append] at whole'
  have counted := Token.beforeEnd_of_ended whole' fun token isMember =>
    Token.notEnd_of_mem_beforeEnd (counts ▸ List.mem_append_left back isMember)
  cases back with
  | nil =>
      obtain ⟨-, -, ends⟩ := Token.ended_eq tokens size
      have atEnd : fault.place (Token.firstEnd tokens size) = Token.firstEnd tokens size := by
        rw [Fault.place_eq, found]
        rfl
      rw [atEnd, if_pos ends] at counted
      obtain ⟨sameFront, sameEnd⟩ := counted
      have failed := again [] rfl
      rw [List.append_nil, ← sameFront, ← sameEnd] at failed
      rw [ofTokens_eq_error failed, sameEnd]
  | cons token back =>
      have atToken (ending : Token) : fault.place ending = token := by
        rw [Fault.place_eq, found]
        rfl
      have isMember : token ∈ Token.beforeEnd tokens := by simp [counts]
      rw [atToken, if_neg (Token.notEnd_of_mem_beforeEnd isMember)] at counted
      obtain ⟨rest', sameFront⟩ := counted
      have failed := declarations_eq_error (again (token :: rest') rfl)
        (Token.firstEnd others size')
      rw [← sameFront] at failed
      rw [ofTokens_eq_error failed, SyntaxError.ofFault_congr ((atToken _).trans (atToken _).symm)]

/-- Every error blames a token, since the reading of all declarations is decided. -/
theorem exists_blames {error : SyntaxError} (failed : ofTokens tokens size = .error error)
    : ∃ i, error.Blames tokens size i := by
  cases decided_declarations ⟨Token.firstEnd tokens size, Token.beforeEnd tokens⟩ with
  | @reads passed ds back counts again =>
      have read := again back rfl
      rw [← counts] at read
      simp [ofTokens, read] at failed
  | @fails front back fault counts found isViable again =>
      have faulty := again back rfl
      rw [← counts] at faulty
      obtain rfl := Except.error.inj ((ofTokens_eq_error faulty).symm.trans failed)
      obtain ⟨rest, whole⟩ := @ended_at_fault _ _ _ size _ counts found
      refine ⟨front.length, ⟨_, ?_, SyntaxError.isAt_ofFault ..⟩, ?_, ?_⟩
      · rw [whole, List.getElem?_append_right (Nat.le_refl _), Nat.sub_self]
        rfl
      · exact fun shared => ofTokens_of_shared counts found again shared
      · rw [whole, List.take_left]
        obtain ⟨more, ⟨⟩, moreProper, ds, areDeclarations⟩ := isViable
        have frontProper : ∀ token ∈ front, token.IsProper := fun token isMember =>
          Token.isProper_of_mem_beforeEnd (counts ▸ List.mem_append_left back isMember)
        refine ⟨more, _, ofTokens_eq_ok.mpr ⟨ds, ?_, rfl⟩⟩
        rwa [Token.beforeEnd_of_proper (List.forall_mem_append.mpr ⟨frontProper, moreProper⟩)]

/-- Syntax errors have the correct-prefix property. An error blames exactly one token: it is
located there, every list that shares the tokens up to that one has the same error, and the
tokens in front of it can be continued to a schema. Where no other token stands at the place of
the error, the one that does is the one that is blamed.
-/
theorem error_blames_one {tokens : List Token} {size : Nat} {error : SyntaxError}
    (failed : ofTokens tokens size = .error error)
    : (∃! i, error.Blames tokens size i)
      ∧ ∀ i, (∀ j, error.StandsAt tokens size j ↔ j = i) → error.Blames tokens size i := by
  obtain ⟨i, blames⟩ := exists_blames failed
  refine ⟨⟨i, blames, fun j blames' => blames'.unique blames⟩, fun j only => ?_⟩
  obtain rfl := (only i).mp blames.located
  exact blames

/-- A closing brace is blamed where the type of a field has to be, whatever follows it. -/
theorem error_blames_brace
    : let tokens := tokenize "model A { id } model"
      let error : SyntaxError :=
        ⟨.unexpected .fieldType (some ⟨.rightBrace, "\x7d", 1, 14, ⟨13, 14⟩⟩), 1, 14, ⟨13, 14⟩⟩
      ofTokens tokens 20 = .error error ∧ error.Blames tokens 20 4 := by
  intro tokens error
  have failed : ofTokens tokens 20 = .error error := by decide +kernel
  have only : ∀ j < 7, (Token.ended tokens 20)[j]?.map Token.span = some error.span → j = 4 := by
    decide +kernel
  have count : (Token.ended tokens 20).length = 7 := by decide +kernel
  obtain ⟨⟨i, blames, -⟩, -⟩ := error_blames_one failed
  obtain ⟨token, stands, isAt⟩ := blames.located
  obtain ⟨within, -⟩ := List.getElem?_eq_some_iff.mp stands
  obtain rfl := only i (count ▸ within) (by rw [stands, isAt.span]; rfl)
  exact ⟨failed, blames⟩

end Schema

end SchemaDoc
