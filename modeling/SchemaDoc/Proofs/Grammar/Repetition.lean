import SchemaDoc.Proofs.Grammar.Cursor
import SchemaDoc.Proofs.Grammar.Derivation

/-! Loops of productions read what the grammar repeats or separates by commas.
Both directions assume the same of the production that the loop runs.
-/

namespace SchemaDoc

theorem Grammar.Sequence.snoc {α : Type} {part : List Token → α → Prop}
    {tokens more : List Token} {xs : List α} {x : α}
    (front : Sequence part tokens xs) (last : part more x)
    : Sequence part (tokens ++ more) (xs ++ [x]) := by
  induction front with
  | nil => simpa using Sequence.cons last .nil
  | cons head _ ih => simpa only [List.append_assoc, List.cons_append] using .cons head ih

namespace Production

open Grammar

/-- Whatever a production reads has a derivation. -/
def Sound {α : Type} (p : Production α) (part : List Token → α → Prop) : Prop :=
  ∀ ⦃cursor next x⦄,
    p cursor = .ok (x, next) → ∃ tokens, cursor.Passes tokens next ∧ part tokens x

/-- Whatever has a derivation is read, unless a token of the kinds given follows it. -/
def Complete {α : Type} (p : Production α) (part : List Token → α → Prop)
    (follow : List TokenKind)
    : Prop :=
  ∀ ⦃cursor next tokens x⦄,
    part tokens x
    → cursor.Passes tokens next
    → next.kind ∉ follow
    → p cursor = .ok (x, next)

theorem Sound.peekKind_bind {α : Type} {f : TokenKind → Production α}
    {part : List Token → α → Prop} (h : ∀ kind, Sound (f kind) part)
    : Sound (peekKind >>= f) part :=
  fun cursor _ _ read => h cursor.kind read

theorem Sound.ite {α : Type} {condition : Prop} [Decidable condition] {p q : Production α}
    {part : List Token → α → Prop} (hp : Sound p part) (hq : Sound q part)
    : Sound (if condition then p else q) part := by
  split <;> assumption

/-- What a run of a production reads is a sequence of what it reads at a time. -/
theorem sequence_of_repeats {α : Type} {p : Production (Option α)}
    {part : List Token → α → Prop}
    (step : ∀ {cursor next x}, p cursor = .ok (some x, next)
      → ∃ tokens, cursor.Passes tokens next ∧ part tokens x)
    {cursor next : Cursor} {xs : List α} (run : Repeats p cursor xs next)
    : ∃ tokens middle,
        cursor.Passes tokens middle ∧ Sequence part tokens xs
        ∧ p middle = .ok (none, next) := by
  induction run with
  | stop last => exact ⟨[], _, .refl _, .nil, last⟩
  | step head _ ih =>
      obtain ⟨front, first, isPart⟩ := step head
      obtain ⟨back, middle, second, areParts, last⟩ := ih
      exact ⟨front ++ back, middle, first.trans second, .cons isPart areParts, last⟩

/-- A sequence is read by a run of the production that reads its parts. Each part is read
where the next one begins or the sequence ends, which `boundary` says of a cursor.
-/
theorem repeats_of_sequence {α : Type} {p : Production (Option α)}
    {part : List Token → α → Prop} (boundary : Cursor → Prop)
    (step : ∀ {cursor next tokens x}, part tokens x → cursor.Passes tokens next
      → boundary next → p cursor = .ok (some x, next))
    (begins : ∀ {cursor next tokens x}, part tokens x → cursor.Passes tokens next
      → boundary cursor)
    {tokens : List Token} {xs : List α} (areParts : Sequence part tokens xs)
    {cursor middle next : Cursor} (passes : cursor.Passes tokens middle)
    (ends : boundary middle) (last : p middle = .ok (none, next))
    : Repeats p cursor xs next ∧ boundary cursor := by
  induction areParts generalizing cursor with
  | nil =>
      obtain rfl := passes.eq_of_nil
      exact ⟨.stop last, ends⟩
  | cons isPart _ ih =>
      obtain ⟨between, first, second⟩ := passes.split
      obtain ⟨run, isBoundary⟩ := ih second
      exact ⟨.step (step isPart first isBoundary) run, begins isPart first⟩

-----------------------------------------------------------------------------------------
-- Items between commas
-----------------------------------------------------------------------------------------

/-- What follows an item is a comma, or the closing token where the cursor stays. -/
theorem itemEnd_eq_ok {closing : TokenKind} (notComma : closing ≠ .comma)
    {cursor next : Cursor}
    : itemEnd closing cursor = .ok ((), next)
      ↔ (∃ comma : Token, comma.kind = .comma ∧ cursor.Passes [comma] next)
        ∨ (cursor.kind = closing ∧ next = cursor) := by
  rw [← accept_true_iff]
  constructor
  · intro h
    obtain ⟨separated, middle, accepted, later⟩ := bind_eq_ok h
    cases separated with
    | true =>
        obtain ⟨-, rfl⟩ := pure_eq_ok.mp later
        exact Or.inl accepted
    | false =>
        obtain ⟨-, rfl⟩ := (accept_false_iff (by decide)).mp accepted
        simp only [Bool.false_eq_true, if_false, peekKind_bind] at later
        split at later
        next stands =>
          obtain ⟨-, rfl⟩ := pure_eq_ok.mp later
          exact Or.inr ⟨stands, rfl⟩
        next => exact absurd later refuse_ne_ok
  · rintro (accepted | ⟨stands, rfl⟩)
    · exact bind_eq_ok_iff.mpr ⟨true, next, accepted, rfl⟩
    · have absent : next.kind ≠ .comma := stands ▸ notComma
      refine bind_eq_ok_iff.mpr
        ⟨false, next, (accept_false_iff (by decide)).mpr ⟨absent, rfl⟩, ?_⟩
      simp only [Bool.false_eq_true, if_false, peekKind_bind, if_pos stands]
      rfl

section Items

variable {α : Type} {item : Production α} {part : List Token → α → Prop}
  {closing : TokenKind}

/-- Items end exactly where the closing token stands, and the cursor stays there. -/
theorem nextItem_none_iff {cursor next : Cursor}
    : nextItem closing item cursor = .ok (none, next)
      ↔ cursor.kind = closing ∧ next = cursor := by
  rw [nextItem, peekKind_bind]
  split
  next stands => simp [pure_eq_ok, stands]
  next differ =>
    simp only [differ, false_and, iff_false]
    intro h
    obtain ⟨_, _, _, later⟩ := bind_eq_ok h
    obtain ⟨_, _, _, last⟩ := bind_eq_ok later
    obtain ⟨absurd, -⟩ := pure_eq_ok.mp last
    simp at absurd

/-- An item is read with what ends it, away from the closing token. -/
theorem nextItem_some_iff {cursor next : Cursor} {x : α}
    : nextItem closing item cursor = .ok (some x, next)
      ↔ cursor.kind ≠ closing
        ∧ ∃ middle, item cursor = .ok (x, middle) ∧ itemEnd closing middle = .ok ((), next) := by
  rw [nextItem, peekKind_bind]
  split
  next stands => simp [pure_eq_ok, stands]
  next differ =>
    constructor
    · intro h
      obtain ⟨y, middle, read, later⟩ := bind_eq_ok h
      obtain ⟨_, _, ended, last⟩ := bind_eq_ok later
      obtain ⟨same, rfl⟩ := pure_eq_ok.mp last
      obtain rfl := Option.some.inj same
      exact ⟨differ, middle, read, ended⟩
    · rintro ⟨-, middle, read, ended⟩
      exact bind_eq_ok_iff.mpr ⟨x, middle, read, bind_eq_ok_iff.mpr ⟨(), next, ended, rfl⟩⟩

/-- Items that are read are separated by commas. If no comma follows an item, the closing
token does, so it was the last one.
-/
theorem separated_of_repeats (notComma : closing ≠ .comma)
    (sound : Sound item part)
    {cursor next : Cursor} {xs : List α} (run : Repeats (nextItem closing item) cursor xs next)
    : ∃ tokens, cursor.Passes tokens next ∧ Separated part tokens xs := by
  induction run with
  | stop last =>
      obtain ⟨-, rfl⟩ := nextItem_none_iff.mp last
      exact ⟨[], .refl _, .nil⟩
  | step head tail ih =>
      obtain ⟨-, middle, read, ended⟩ := nextItem_some_iff.mp head
      obtain ⟨front, passes, isPart⟩ := sound read
      rcases (itemEnd_eq_ok notComma).mp ended with ⟨comma, isComma, passed⟩ | ⟨stands, rfl⟩
      · obtain ⟨back, passes', separated⟩ := ih
        exact ⟨front ++ comma :: back, passes.trans (passed.cons passes'),
          .cons isPart isComma separated⟩
      · cases tail with
        | stop last =>
            obtain ⟨-, rfl⟩ := nextItem_none_iff.mp last
            exact ⟨front, passes, .last isPart⟩
        | step head _ => exact absurd stands (nextItem_some_iff.mp head).1

/-- Separated items are read up to the closing token. -/
theorem repeats_of_separated (notComma : closing ≠ .comma)
    {follow : List TokenKind} (complete : Complete item part follow)
    (comma : .comma ∉ follow) (close : closing ∉ follow)
    (begins : ∀ {tokens x}, part tokens x
      → ∃ first back, tokens = first :: back ∧ first.kind ≠ closing)
    {tokens : List Token} {xs : List α} (separated : Separated part tokens xs)
    {cursor next : Cursor} (passes : cursor.Passes tokens next) (closes : next.kind = closing)
    : Repeats (nextItem closing item) cursor xs next := by
  induction separated generalizing cursor with
  | nil =>
      obtain rfl := passes.eq_of_nil
      exact .stop (nextItem_none_iff.mpr ⟨closes, rfl⟩)
  | last isPart =>
      obtain ⟨first, back, rfl, differ⟩ := begins isPart
      have absent : cursor.kind ≠ closing := passes.kind_eq ▸ differ
      have ended := (itemEnd_eq_ok notComma).mpr (Or.inr ⟨closes, rfl⟩)
      have read := complete isPart passes (closes ▸ close)
      exact .step (nextItem_some_iff.mpr ⟨absent, next, read, ended⟩)
        (.stop (nextItem_none_iff.mpr ⟨closes, rfl⟩))
  | cons isPart isComma _ ih =>
      obtain ⟨middle, partPassed, passes'⟩ := passes.split
      obtain ⟨behind, commaPassed, restPassed⟩ := passes'.uncons
      obtain ⟨first, back, rfl, differ⟩ := begins isPart
      have absent : cursor.kind ≠ closing := partPassed.kind_eq ▸ differ
      have ended := (itemEnd_eq_ok notComma).mpr (Or.inl ⟨_, isComma, commaPassed⟩)
      have read := complete isPart partPassed (by rwa [commaPassed.kind_eq, isComma])
      exact .step (nextItem_some_iff.mpr ⟨absent, middle, read, ended⟩) (ih restPassed)

/-- Items that are read up to a closing token are separated by commas. -/
theorem separated_of_itemsUntil (notComma : closing ≠ .comma) (takes : Takes 1 item)
    (sound : Sound item part)
    {cursor next : Cursor} {xs : List α}
    (h : itemsUntil closing item takes cursor = .ok (xs, next))
    : ∃ tokens last,
        cursor.Passes (tokens ++ [last]) next
        ∧ Separated part tokens xs
        ∧ last.kind = closing := by
  obtain ⟨ys, middle, run, later⟩ := bind_eq_ok h
  obtain ⟨tokens, passes, separated⟩ :=
    separated_of_repeats notComma sound ((repeated_eq_ok _).mp run)
  obtain ⟨last, behind, read, end_read⟩ := bind_eq_ok later
  obtain ⟨closes, passed⟩ := token_eq_ok.mp read
  obtain ⟨rfl, rfl⟩ := pure_eq_ok.mp end_read
  exact ⟨tokens, last, passes.trans passed, separated, closes⟩

/-- Separated items are read with the closing token behind them. -/
theorem itemsUntil_of_separated (notComma : closing ≠ .comma) (takes : Takes 1 item)
    {follow : List TokenKind} (complete : Complete item part follow)
    (comma : .comma ∉ follow) (close : closing ∉ follow)
    (begins : ∀ {tokens x}, part tokens x
      → ∃ first back, tokens = first :: back ∧ first.kind ≠ closing)
    {tokens : List Token} {xs : List α} (separated : Separated part tokens xs) {last : Token}
    (closes : last.kind = closing) {cursor next : Cursor}
    (passes : cursor.Passes (tokens ++ [last]) next)
    : itemsUntil closing item takes cursor = .ok (xs, next) := by
  obtain ⟨middle, itemsPassed, lastPassed⟩ := passes.split
  have run := repeats_of_separated notComma complete comma close begins separated itemsPassed
    (lastPassed.kind_eq.trans closes)
  refine bind_eq_ok_iff.mpr ⟨xs, middle, (repeated_eq_ok _).mpr run, ?_⟩
  exact bind_eq_ok_iff.mpr ⟨last, next, token_eq_ok.mpr ⟨closes, lastPassed⟩, rfl⟩

end Items

end Production

end SchemaDoc
