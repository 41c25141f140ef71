import SchemaDoc.Proofs.Grammar.Alignment
import SchemaDoc.Proofs.Grammar.Names
import SchemaDoc.Proofs.Grammar.Parsing

/-! Runs that are decided by the tokens up to where they stop and by the one that stands there.
Where a run stops for a fault, the tokens in front can be continued. Every combinator keeps both
properties, so what is left for a production is to continue what it has taken so far.
-/

namespace SchemaDoc

/-- The token that is at fault, unless the input ends there. -/
def Fault.token? : Fault → Option Token
  | .unexpected _ found => found
  | .unreadableNumber token => some token

/-- A token of a kind that is written nowhere. -/
def Token.unplaced (kind : TokenKind) : Token := ⟨kind, "", 1, 1, .none⟩

instance : DecidablePred Token.IsProper :=
  fun token => inferInstanceAs (Decidable (token.isTrivia = false ∧ token.kind ≠ .endOfInput))

theorem Cursor.Passes.tokens_unique {cursor next : Cursor} {tokens tokens' : List Token}
    (h : cursor.Passes tokens next) (h' : cursor.Passes tokens' next)
    : tokens = tokens' :=
  List.append_cancel_right (h.rest.symm.trans h'.rest)

-----------------------------------------------------------------------------------------
-- Beginnings
-----------------------------------------------------------------------------------------

/-- Tokens that can be continued to what a part of the grammar derives. -/
def Grammar.Begins {α : Type} (part : List Token → α → Prop) (front : List Token) : Prop :=
  ∃ back x, (∀ token ∈ back, token.IsProper) ∧ part (front ++ back) x

/-- A part of the grammar that has no value. -/
abbrev Grammar.Valueless (part : List Token → Prop) (tokens : List Token) (_ : Unit) : Prop :=
  part tokens

namespace Grammar.Begins

variable {α β : Type} {part : List Token → α → Prop} {whole : List Token → β → Prop}
  {front tokens : List Token} {x : α}

/-- What is derived begins itself. -/
theorem of_part (isPart : part tokens x) : Begins part tokens :=
  ⟨[], x, by simp, by rwa [List.append_nil]⟩

theorem of_valueless {part : List Token → Prop} (isPart : part tokens)
    : Begins (Valueless part) tokens :=
  @of_part _ (Valueless part) _ () isPart

/-- A beginning of a part begins the whole, if the part can be continued to the whole. -/
theorem embed (begins : Begins part front) (skipped : List Token)
    (continues : ∀ {tokens x}, part tokens x → Begins whole (skipped ++ tokens))
    : Begins whole (skipped ++ front) := by
  obtain ⟨back, x, proper, isPart⟩ := begins
  obtain ⟨more, y, moreProper, isWhole⟩ := continues isPart
  refine ⟨back ++ more, y, List.forall_mem_append.mpr ⟨proper, moreProper⟩, ?_⟩
  simpa only [List.append_assoc] using isWhole

/-- What begins with more tokens begins with fewer. -/
theorem of_append {back : List Token} (begins : Begins part (front ++ back))
    (proper : ∀ token ∈ back, token.IsProper)
    : Begins part front := by
  obtain ⟨more, x, moreProper, isPart⟩ := begins
  refine ⟨back ++ more, x, List.forall_mem_append.mpr ⟨proper, moreProper⟩, ?_⟩
  rwa [← List.append_assoc]

end Grammar.Begins

namespace Production

open Grammar

-----------------------------------------------------------------------------------------
-- Runs and how they combine
-----------------------------------------------------------------------------------------

/-- A run that goes the same way over all lists that share the tokens up to where it stops and
the one there. Where it fails, that token is at fault, and what is in front of it is viable.
-/
inductive Decided {α : Type} (p : Production α) (viable : List Token → Prop) (cursor : Cursor)
  : Prop
  | reads (tokens : List Token) (x : α) {back} (split : cursor.rest = tokens ++ back)
    (again : ∀ rest,
      rest.head? = back.head?
      → p ⟨cursor.previous, tokens ++ rest⟩
        = .ok (x, ⟨tokens.getLast?.getD cursor.previous, rest⟩))
    : Decided p viable cursor
  | fails (front : List Token) {back fault} (split : cursor.rest = front ++ back)
    (found : fault.token? = back.head?) (isViable : viable front)
    (again : ∀ rest,
      rest.head? = back.head? → p ⟨cursor.previous, front ++ rest⟩ = .error fault)
    : Decided p viable cursor

variable {α β : Type} {p : Production α} {f : α → Production β} {cursor : Cursor}
  {viable : List Token → Prop}

theorem head?_append_congr {rest rest' : List Token} (same : rest.head? = rest'.head?)
    (front : List Token)
    : (front ++ rest).head? = (front ++ rest').head? := by
  rw [List.head?_append, List.head?_append, same]

namespace Decided

theorem mono {narrow : List Token → Prop} (decided : Decided p narrow cursor)
    (wider : ∀ front, narrow front → viable front)
    : Decided p viable cursor := by
  cases decided with
  | reads tokens x split again => exact .reads tokens x split again
  | fails front split found isViable again =>
      exact .fails front split found (wider _ isViable) again

/-- A production that reads a part is decided behind tokens that make it a part of a whole. -/
theorem embed {part : List Token → α → Prop} {whole : List Token → β → Prop}
    (decided : Decided p (Begins part) cursor) (skipped : List Token)
    (continues : ∀ {tokens x}, part tokens x → Begins whole (skipped ++ tokens))
    : Decided p (fun front => Begins whole (skipped ++ front)) cursor :=
  decided.mono fun _ begins => begins.embed skipped continues

/-- A production that is replaced by one that does the same wherever the next token is the one
at the cursor.
-/
theorem congr {q : Production α} (decided : Decided q viable cursor)
    (same : ∀ rest, rest.head? = cursor.rest.head?
      → p ⟨cursor.previous, rest⟩ = q ⟨cursor.previous, rest⟩)
    : Decided p viable cursor := by
  cases decided with
  | reads tokens x split again =>
      refine .reads tokens x split fun rest sameHead => (same _ ?_).trans (again rest sameHead)
      rw [split]
      exact head?_append_congr sameHead _
  | fails front split found isViable again =>
      refine .fails front split found isViable fun rest sameHead =>
        (same _ ?_).trans (again rest sameHead)
      rw [split]
      exact head?_append_congr sameHead _

/-- A sequence is decided if its second part is, behind whatever the first part takes. -/
theorem bind (first : Decided p viable cursor)
    (next : ∀ {tokens x middle},
      p cursor = .ok (x, middle)
      → cursor.Passes tokens middle
      → Decided (f x) (fun front => viable (tokens ++ front)) middle)
    : Decided (p >>= f) viable cursor := by
  cases first with
  | @reads tokens x back split again =>
      have read : p cursor = .ok (x, ⟨tokens.getLast?.getD cursor.previous, back⟩) := by
        simpa only [← split] using again back rfl
      have through {more rest : List Token} (sameHead : (more ++ rest).head? = back.head?)
          : (p >>= f) ⟨cursor.previous, (tokens ++ more) ++ rest⟩
            = f x ⟨tokens.getLast?.getD cursor.previous, more ++ rest⟩ := by
        rw [List.append_assoc]
        simp only [Bind.bind, again _ sameHead]
      cases next read ⟨split, rfl⟩ with
      | @reads more y back' split' again' =>
          obtain rfl : back = more ++ back' := split'
          refine .reads (tokens ++ more) y (split.trans (List.append_assoc ..).symm)
            fun rest sameHead => ?_
          rw [through (head?_append_congr sameHead more), again' rest sameHead,
            List.getLast?_append]
          cases more.getLast? <;> rfl
      | @fails more back' fault split' found isViable again' =>
          obtain rfl : back = more ++ back' := split'
          refine .fails (tokens ++ more) (split.trans (List.append_assoc ..).symm) found isViable
            fun rest sameHead => ?_
          rw [through (head?_append_congr sameHead more), again' rest sameHead]
  | fails front split found isViable again =>
      refine .fails front split found isViable fun rest sameHead => ?_
      simp only [Bind.bind, again rest sameHead]

/-- Behind a part whose derivation is known, the second part of a sequence has to be decided. -/
theorem sound_bind {part : List Token → α → Prop} (first : Decided p viable cursor)
    (sound : Sound p part)
    (next : ∀ {tokens x middle},
      part tokens x
      → cursor.Passes tokens middle
      → Decided (f x) (fun front => viable (tokens ++ front)) middle)
    : Decided (p >>= f) viable cursor := by
  refine first.bind fun read passes => ?_
  obtain ⟨tokens, passes', isPart⟩ := sound read
  obtain rfl := passes.tokens_unique passes'
  exact next isPart passes

theorem pure (x : α) : Decided (pure x : Production α) viable cursor :=
  .reads [] x rfl fun _ _ => rfl

theorem refuse (expected : Expectation) (isViable : viable [])
    : Decided (refuse expected : Production α) viable cursor :=
  .fails [] rfl rfl isViable fun rest sameHead => by
    rw [List.nil_append, Production.refuse, sameHead]

theorem peekKind_bind {f : TokenKind → Production β}
    (decided : Decided (f cursor.kind) viable cursor)
    : Decided (peekKind >>= f) viable cursor := by
  refine decided.congr fun rest sameHead => ?_
  rw [Production.peekKind_bind, Cursor.kind, Cursor.kind, sameHead]

theorem previous_bind {f : Token → Production β}
    (decided : Decided (f cursor.previous) viable cursor)
    : Decided (previous >>= f) viable cursor :=
  decided.congr fun _ _ => rfl

theorem ite {condition : Prop} [Decidable condition] {q : Production α}
    (holds : condition → Decided p viable cursor)
    (fails : ¬condition → Decided q viable cursor)
    : Decided (if condition then p else q) viable cursor := by
  split
  next h => exact holds h
  next h => exact fails h

end Decided

-----------------------------------------------------------------------------------------
-- Tokens
-----------------------------------------------------------------------------------------

theorem decided_satisfying (condition : Token → Bool) (expected : Expectation)
    (isViable : viable [])
    : Decided (satisfying condition expected) viable cursor := by
  obtain ⟨last, ahead⟩ := cursor
  have refused {found : Option Token} (same : found = ahead.head?)
      (unmet : ∀ token ∈ found, condition token = false)
      : Decided (satisfying condition expected) viable ⟨last, ahead⟩ := by
    refine (Decided.refuse expected isViable).congr fun rest sameHead => ?_
    cases rest with
    | nil => rfl
    | cons token rest => simp [satisfying, Production.refuse, unmet token (same ▸ sameHead.symm)]
  cases ahead with
  | nil => exact refused rfl (by simp)
  | cons token back =>
      by_cases holds : condition token = true
      · exact .reads [token] token rfl fun rest _ =>
          satisfying_eq_ok.mpr ⟨holds, ⟨rfl, rfl⟩⟩
      · exact refused rfl (by simpa using holds)

theorem Decided.satisfying_bind {condition : Token → Bool} {expected : Expectation}
    {f : Token → Production β} (isViable : viable [])
    (next : ∀ {found middle},
      condition found = true
      → cursor.Passes [found] middle
      → Decided (f found) (fun front => viable (found :: front)) middle)
    : Decided (satisfying condition expected >>= f) viable cursor := by
  refine (decided_satisfying condition expected isViable).bind fun read passes => ?_
  obtain ⟨holds, passed⟩ := satisfying_eq_ok.mp read
  obtain rfl := passes.tokens_unique passed
  exact next holds passed

theorem Decided.token_bind {kind : TokenKind} {f : Token → Production β} (isViable : viable [])
    (next : ∀ {found middle},
      found.kind = kind
      → cursor.Passes [found] middle
      → Decided (f found) (fun front => viable (found :: front)) middle)
    : Decided (token kind >>= f) viable cursor :=
  .satisfying_bind isViable fun holds passed => next (of_decide_eq_true holds) passed

theorem Decided.word_bind {expected : Expectation} {f : Token → Production β}
    (isViable : viable [])
    (next : ∀ {found middle},
      found.isWord = true
      → cursor.Passes [found] middle
      → Decided (f found) (fun front => viable (found :: front)) middle)
    : Decided (word expected >>= f) viable cursor :=
  .satisfying_bind isViable next

theorem decided_optional (condition : Token → Token → Bool)
    : Decided (optional condition) viable cursor := by
  obtain ⟨last, ahead⟩ := cursor
  cases taken : ahead.head?.filter (condition last) with
  | none =>
      refine .reads [] none rfl fun rest sameHead => ?_
      exact optional_eq_ok.mpr ⟨by rw [← taken, ← sameHead]; rfl, .refl _⟩
  | some token =>
      obtain ⟨back, rfl⟩ := List.head?_eq_some_iff.mp (Option.filter_eq_some_iff.mp taken).1
      exact .reads [token] (some token) rfl fun rest _ =>
        optional_eq_ok.mpr ⟨taken.symm, ⟨rfl, rfl⟩⟩

theorem decided_accept (kind : TokenKind) : Decided (accept kind) viable cursor :=
  (decided_optional _).bind fun _ _ => .pure _

/-- A run goes on behind an accepted token, or where no such token stands. -/
theorem Decided.accept_bind {kind : TokenKind} (notEnd : kind ≠ .endOfInput)
    {f : Bool → Production β}
    (taken : ∀ {found middle},
      found.kind = kind
      → cursor.Passes [found] middle
      → Decided (f true) (fun front => viable (found :: front)) middle)
    (left : cursor.kind ≠ kind → Decided (f false) viable cursor)
    : Decided (accept kind >>= f) viable cursor := by
  refine (decided_accept kind).bind fun {_ accepted _} read passes => ?_
  cases accepted with
  | true =>
      obtain ⟨found, isKind, passed⟩ := accept_true_iff.mp read
      obtain rfl := passes.tokens_unique passed
      exact taken isKind passed
  | false =>
      obtain ⟨absent, rfl⟩ := (accept_false_iff notEnd).mp read
      obtain rfl := passes.tokens_unique (.refl _)
      exact left absent

theorem decided_trailingComment : Decided trailingComment viable cursor := decided_optional _

theorem decided_leadingComments : Decided leadingComments viable cursor := by
  have read := leadingComments_eq_ok.mp (show leadingComments cursor = .ok (_, _) from rfl)
  obtain ⟨passes, areComments, stop⟩ := read
  refine .reads _ (cursor.rest.takeWhile (·.kind = .docComment)) passes.rest fun rest sameHead => ?_
  refine leadingComments_eq_ok.mpr ⟨⟨rfl, rfl⟩, areComments, ?_⟩
  rwa [Cursor.kind, sameHead]

-----------------------------------------------------------------------------------------
-- Loops
-----------------------------------------------------------------------------------------

/-- A loop is its step with the loop behind it. -/
theorem repeated_eq_bind {p : Production (Option α)} (advances : Advances p)
    : repeated p advances
      = p >>= fun
        | none => pure []
        | some x => repeated p advances >>= fun xs => pure (x :: xs) := by
  funext cursor
  rw [repeated_eq]
  rcases read : p cursor with fault | ⟨_ | x, next⟩
  · simp only [Bind.bind, read]
  · simp only [Bind.bind, read]
    rfl
  · simp only [Bind.bind, read]
    rcases repeated p advances next with fault | ⟨xs, last⟩ <;> rfl

/-- A loop is decided if its steps are, by induction on the tokens to come. What the invariant
says of the tokens so far and of the cursor there has to make every step decided.
-/
theorem Decided.repeated {p : Production (Option α)} (advances : Advances p)
    (invariant : List Token → Cursor → Prop)
    (step : ∀ {done cursor},
      invariant done cursor → Decided p (fun front => viable (done ++ front)) cursor)
    (goesOn : ∀ {done cursor tokens x next},
      invariant done cursor
      → p cursor = .ok (some x, next)
      → cursor.Passes tokens next
      → invariant (done ++ tokens) next)
    {done : List Token} (holds : invariant done cursor)
    : Decided (repeated p advances) (fun front => viable (done ++ front)) cursor := by
  induction length : cursor.rest.length using Nat.strongRecOn generalizing done cursor with
  | ind n ih =>
      rw [repeated_eq_bind]
      refine (step holds).bind fun {tokens x middle} read passes => ?_
      cases x with
      | none => exact .pure []
      | some x =>
          have shorter : middle.rest.length < n := length ▸ advances _ _ _ read
          have behind := ih _ shorter (goesOn holds read passes) rfl
          simp only [List.append_assoc] at behind
          exact behind.bind fun _ _ => .pure _

/-- A loop is decided from its start. -/
theorem Decided.repeated_of_start {p : Production (Option α)} (advances : Advances p)
    (invariant : List Token → Cursor → Prop) (start : invariant [] cursor)
    (step : ∀ {done cursor},
      invariant done cursor → Decided p (fun front => viable (done ++ front)) cursor)
    (goesOn : ∀ {done cursor tokens x next},
      invariant done cursor
      → p cursor = .ok (some x, next)
      → cursor.Passes tokens next
      → invariant (done ++ tokens) next)
    : Decided (Production.repeated p advances) viable cursor :=
  .repeated advances invariant step goesOn start

section Items

variable {item : Production α} {part : List Token → α → Prop} {closing : TokenKind}

/-- Items that stand in front of a closing token. -/
def Enclosed (closing : TokenKind) (part : List Token → α → Prop) (tokens : List Token)
    (xs : List α)
    : Prop :=
  ∃ items last, tokens = items ++ [last] ∧ Separated part items xs ∧ last.kind = closing

/-- Items that are separated become a whole by the closing token. -/
theorem begins_enclosed (closingProper : (Token.unplaced closing).IsProper)
    {items : List Token} {xs : List α} (separated : Separated part items xs)
    : Begins (Enclosed closing part) items :=
  ⟨[.unplaced closing], xs, by simpa using closingProper, items, _, rfl, separated, rfl⟩

/-- The tokens in front of an item: more items may follow, or the items have ended. -/
def GoOn (part : List Token → α → Prop) (closing : TokenKind) (done : List Token)
    (cursor : Cursor)
    : Prop :=
  (∀ {more xs}, Separated part more xs → ∃ ys, Separated part (done ++ more) ys)
  ∨ cursor.kind = closing ∧ ∃ xs, Separated part done xs

/-- What stands behind an item is a comma, after which more may follow, or it is the end. -/
theorem GoOn.behind (notComma : closing ≠ .comma) {done tokens more : List Token} {x : α}
    (continues : ∀ {more xs}, Separated part more xs → ∃ ys, Separated part (done ++ more) ys)
    (isPart : part tokens x) {next : Cursor} (ended : itemEnd closing cursor = .ok ((), next))
    (passes : cursor.Passes more next)
    : GoOn part closing (done ++ (tokens ++ more)) next := by
  rcases (itemEnd_eq_ok notComma).mp ended with ⟨comma, isComma, passed⟩ | ⟨stands, rfl⟩
  · obtain rfl := passes.tokens_unique passed
    refine Or.inl fun {rest xs} separated => ?_
    obtain ⟨ys, all⟩ := continues (.cons isPart isComma separated)
    exact ⟨ys, by simpa only [List.append_assoc, List.singleton_append] using all⟩
  · obtain rfl := passes.tokens_unique (.refl _)
    rw [List.append_nil]
    exact Or.inr ⟨stands, continues (.last isPart)⟩

theorem decided_itemEnd (isViable : viable [])
    : Decided (itemEnd closing) viable cursor :=
  .accept_bind (by decide) (fun _ _ => .pure _) fun _ =>
    .peekKind_bind (.ite (fun _ => .pure _) fun _ => .refuse _ isViable)

/-- Items up to a closing token are decided if each of them is. -/
theorem decided_itemsUntil (notComma : closing ≠ .comma)
    (closingProper : (Token.unplaced closing).IsProper) (takes : Takes 1 item)
    (sound : Sound item part) (decided : ∀ cursor, Decided item (Begins part) cursor)
    (cursor : Cursor)
    : Decided (itemsUntil closing item takes) (Begins (Enclosed closing part)) cursor := by
  have areItems : Sound (Production.repeated (nextItem closing item)
      (advances_nextItem closing takes)) (Separated part) :=
    fun _ _ _ read => separated_of_repeats notComma sound ((repeated_eq_ok _).mp read)
  have loop : Decided (Production.repeated (nextItem closing item)
      (advances_nextItem closing takes)) (Begins (Enclosed closing part)) cursor := by
    refine .repeated_of_start _ (GoOn part closing) (Or.inl fun separated => ⟨_, separated⟩)
      (fun {done cursor} goOn => ?_) (fun {done cursor _ _ _} goOn read passes => ?_)
    · refine .peekKind_bind (.ite (fun _ => .pure _) fun differs => ?_)
      rcases goOn with continues | ⟨stands, -⟩
      · have closed {tokens : List Token} {x : α} (isPart : part tokens x)
            : Begins (Enclosed closing part) (done ++ tokens) := by
          obtain ⟨ys, separated⟩ := continues (.last isPart)
          exact begins_enclosed closingProper separated
        refine ((decided cursor).embed done closed).sound_bind sound fun isPart _ => ?_
        refine (decided_itemEnd ?_).bind fun _ _ => .pure _
        rw [List.append_nil]
        exact closed isPart
      · exact absurd stands differs
    · obtain ⟨differs, middle, itemRead, ended⟩ := nextItem_some_iff.mp read
      obtain ⟨tokens, itemPassed, isPart⟩ := sound itemRead
      obtain ⟨more, endPassed⟩ : ∃ more, middle.Passes more _ := by
        rcases (itemEnd_eq_ok notComma).mp ended with ⟨comma, -, passed⟩ | ⟨-, rfl⟩
        · exact ⟨[comma], passed⟩
        · exact ⟨[], .refl _⟩
      obtain rfl := passes.tokens_unique (itemPassed.trans endPassed)
      rcases goOn with continues | ⟨stands, -⟩
      · exact .behind notComma continues isPart ended endPassed
      · exact absurd stands differs
  refine loop.sound_bind areItems fun separated _ => .token_bind ?_ fun _ _ => .pure _
  simpa using begins_enclosed closingProper separated

end Items

-----------------------------------------------------------------------------------------
-- Groups
-----------------------------------------------------------------------------------------

/-- A pair of brackets is a group. -/
theorem group_of_pair {opening closing : TokenKind}
    : Group opening closing ([.unplaced opening] ++ [.unplaced closing]) :=
  .mk rfl .nil rfl

/-- A group that is not closed can be, by as many closing tokens as groups are open. -/
theorem skipGroup_append_closing {opening closing : TokenKind} (differ : opening ≠ closing)
    (depth : Nat) (tokens : List Token) {fault : Fault}
    (failed : skipGroup opening closing depth tokens = .error fault)
    : ∃ count,
        skipGroup opening closing depth
            (tokens ++ List.replicate count (.unplaced closing))
          = .ok ((), ⟨.unplaced closing, []⟩) := by
  have notOpening : (Token.unplaced closing).kind ≠ opening := differ.symm
  have closes : (Token.unplaced closing).kind = closing := rfl
  induction tokens generalizing depth with
  | nil =>
      refine ⟨depth + 1, ?_⟩
      induction depth with
      | zero =>
          rw [List.nil_append, List.replicate_one, skipGroup_cons, if_neg notOpening,
            if_pos closes]
      | succ depth ih =>
          rw [List.nil_append] at ih ⊢
          rw [List.replicate_succ, skipGroup_cons, if_neg notOpening, if_pos closes]
          exact ih failed
  | cons token tokens ih =>
      rw [skipGroup_cons] at failed
      simp only [List.cons_append, skipGroup_cons]
      split at failed
      next opens => simpa only [if_pos opens] using ih _ failed
      next notOpening =>
        split at failed
        next closes =>
          cases depth with
          | zero => simp at failed
          | succ depth => simpa only [if_neg notOpening, if_pos closes] using ih _ failed
        next notClosing => simpa only [if_neg notOpening, if_neg notClosing] using ih _ failed

/-- Groups end for a fault at the end of the input only. -/
theorem skipGroup_eq_error {opening closing : TokenKind} {depth : Nat} {tokens : List Token}
    {fault : Fault} (failed : skipGroup opening closing depth tokens = .error fault)
    : fault.token? = none := by
  fun_induction skipGroup opening closing depth tokens with
  | case1 =>
      obtain rfl := Except.error.inj failed
      rfl
  | case3 => simp at failed
  | case2 _ _ _ _ ih | case4 _ _ _ _ _ ih | case5 _ _ _ _ _ ih => exact ih failed

theorem decided_group {opening closing : TokenKind} (differ : opening ≠ closing)
    (openingProper : (Token.unplaced opening).IsProper)
    (closingProper : (Token.unplaced closing).IsProper) (cursor : Cursor)
    : Decided (group opening closing) (Begins (Valueless (Group opening closing))) cursor := by
  refine .token_bind ?_ fun {found middle} opens passed => ?_
  · exact ⟨_, (), by simpa using ⟨openingProper, closingProper⟩, group_of_pair⟩
  · rcases read : skipGroup opening closing 0 middle.rest with fault | ⟨⟨⟩, next⟩
    · refine .fails middle.rest (List.append_nil _).symm (skipGroup_eq_error read) ?_
        fun rest atEnd => ?_
      · obtain ⟨count, closed⟩ := skipGroup_append_closing differ 0 middle.rest read
        obtain ⟨inner, last, rest, split, within, closes, same⟩ := balanced_of_skipGroup closed
        obtain ⟨rfl, rfl⟩ := Cursor.mk.inj same
        refine ⟨List.replicate count (.unplaced closing), (), ?_, ?_⟩
        · exact fun token isMember => (List.eq_of_mem_replicate isMember) ▸ closingProper
        · rw [List.cons_append, split]
          exact .mk opens within closes
      · obtain rfl : rest = [] := List.head?_eq_none_iff.mp atEnd
        rw [List.append_nil]
        exact read
    · obtain ⟨inner, last, rest, split, within, closes, same⟩ := balanced_of_skipGroup read
      refine .reads (inner ++ [last]) () (by simpa using split) fun rest' _ => ?_
      change skipGroup opening closing 0 (inner ++ [last] ++ rest') = _
      rw [List.append_assoc, skipGroup_append differ within, List.singleton_append,
        skipGroup_cons, if_neg (closes ▸ differ.symm), if_pos closes]
      simp

end Production

end SchemaDoc
