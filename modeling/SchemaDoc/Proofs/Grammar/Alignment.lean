import SchemaDoc.Proofs.Grammar.Repetition
import SchemaDoc.Proofs.Schema.Spans

/-! Runs of productions over two token lists that agree in all but their places.
The runs stop at tokens that agree, with values that agree or with faults that agree. Of the
lines of tokens only one thing counts: whether a comment is on the line of the token before it.
-/

namespace SchemaDoc

-----------------------------------------------------------------------------------------
-- Tokens and cursors
-----------------------------------------------------------------------------------------

/-- What is seen of the places in two texts. A range that covers two others is seen as the range
that covers what is seen of them.
-/
structure SpanView where
  left : Span → Span
  right : Span → Span
  left_merge : ∀ s t, left (s.merge t) = (left s).merge (left t)
  right_merge : ∀ s t, right (s.merge t) = (right s).merge (right t)

/-- A view may keep the places of one side. -/
theorem Span.id_merge (s t : Span) : id (s.merge t) = (id s).merge (id t) := rfl

/-- Two values agree when their places are seen alike and nothing else tells them apart. -/
def SpanView.Same {α : Type} (view : SpanView) (mapSpan : (Span → Span) → α → α) (x y : α)
    : Prop :=
  mapSpan view.left x = mapSpan view.right y

/-- Two tokens that agree in all but the line and the column. -/
structure Token.Alike (view : SpanView) (t u : Token) : Prop where
  kind : t.kind = u.kind
  text : t.text = u.text
  span : view.left t.span = view.right u.span

/-- Whether a token is a documentation comment on the line of the token before it. -/
def Token.trails (last token : Token) : Bool :=
  token.kind = .docComment && token.line = last.line

/-- Tokens behind two others that agree one by one, also in what they trail. -/
inductive Token.AlikeBehind (view : SpanView) : Token → Token → List Token → List Token → Prop
  | nil {last last'} : AlikeBehind view last last' [] []
  | cons {last last' t u ts us} (alike : t.Alike view u) (trails : last.trails t = last'.trails u)
    (rest : AlikeBehind view t u ts us)
    : AlikeBehind view last last' (t :: ts) (u :: us)

/-- Two cursors in front of tokens that agree, unless the first of them trails one only. -/
structure Cursor.AlikeAhead (view : SpanView) (c d : Cursor) : Prop where
  previous : view.left c.previous.span = view.right d.previous.span
  rest : ∃ last last', Token.AlikeBehind view last last' c.rest d.rest

/-- Two cursors in front of tokens that agree. -/
structure Cursor.Alike (view : SpanView) (c d : Cursor) : Prop where
  previous : view.left c.previous.span = view.right d.previous.span
  rest : Token.AlikeBehind view c.previous d.previous c.rest d.rest

/-- Two faults with the same message. -/
inductive Fault.Alike (view : SpanView) : Fault → Fault → Prop
  | unexpected {expected found found'} (alike : Option.Rel (Token.Alike view) found found')
    : Fault.Alike view (.unexpected expected found) (.unexpected expected found')
  | unreadableNumber {t u} (alike : t.Alike view u)
    : Fault.Alike view (.unreadableNumber t) (.unreadableNumber u)

variable {view : SpanView}

theorem Token.Alike.describe {t u : Token} (alike : t.Alike view u)
    : t.describe = u.describe := by
  rw [Token.describe, Token.describe, alike.kind, alike.text]

theorem Token.Alike.isWord {t u : Token} (alike : t.Alike view u) : t.isWord = u.isWord := by
  rw [Token.isWord, Token.isWord, alike.kind]

theorem Token.Alike.toIdent {t u : Token} (alike : t.Alike view u)
    : view.Same Ident.mapSpan t.toIdent u.toIdent := by
  rw [SpanView.Same, Ident.mapSpan, Ident.mapSpan, Token.toIdent, Token.toIdent, alike.text,
    alike.span]

theorem Fault.Alike.message {fault fault' : Fault} (alike : fault.Alike view fault')
    : fault.message = fault'.message := by
  cases alike with
  | unexpected alike =>
      have found := elim_eq_of_rel TokenKind.endOfInput.describe alike fun _ _ alike =>
        Token.Alike.describe alike
      exact congrArg (_ ++ ·) found
  | unreadableNumber alike =>
      exact congrArg (fun text => "invalid number '" ++ text ++ "'") alike.text

theorem Token.AlikeBehind.head? {last last' : Token} {ts us : List Token}
    (alike : AlikeBehind view last last' ts us)
    : Option.Rel (Token.Alike view) ts.head? us.head? := by
  cases alike with
  | nil => exact .none
  | cons alike => exact .some alike

theorem Cursor.Alike.ahead {c d : Cursor} (alike : c.Alike view d) : c.AlikeAhead view d :=
  ⟨alike.previous, _, _, alike.rest⟩

theorem Cursor.AlikeAhead.kind {c d : Cursor} (alike : c.AlikeAhead view d)
    : c.kind = d.kind := by
  obtain ⟨_, _, rest⟩ := alike.rest
  exact elim_eq_of_rel _ rest.head? fun _ _ alike => alike.kind

-----------------------------------------------------------------------------------------
-- Runs
-----------------------------------------------------------------------------------------

namespace Production

variable {α α' β β' : Type} {same : α → α' → Prop} {same' : β → β' → Prop}

/-- Two runs that end alike. -/
inductive EndAlike (view : SpanView) (same : α → α' → Prop)
    : Except Fault (α × Cursor) → Except Fault (α' × Cursor) → Prop
  | ok {x y c d} (agrees : same x y) (alike : c.Alike view d)
    : EndAlike view same (.ok (x, c)) (.ok (y, d))
  | error {fault fault'} (alike : fault.Alike view fault')
    : EndAlike view same (.error fault) (.error fault')

/-- Two productions whose runs end alike when they begin alike. -/
def Respects (view : SpanView) (same : α → α' → Prop) (p : Production α) (q : Production α')
    : Prop :=
  ∀ ⦃c d⦄, c.Alike view d → EndAlike view same (p c) (q d)

theorem EndAlike.bind {p : Production α} {q : Production α'} {c d : Cursor}
    (first : EndAlike view same (p c) (q d)) {k : α → Production β} {k' : α' → Production β'}
    (next : ∀ x y, same x y → Respects view same' (k x) (k' y))
    : EndAlike view same' ((p >>= k) c) ((q >>= k') d) := by
  simp only [Bind.bind]
  generalize p c = ending, q d = ending' at first ⊢
  cases first with
  | ok agrees alike => exact next _ _ agrees alike
  | error alike => exact .error alike

theorem Respects.bind {p : Production α} {q : Production α'} (first : Respects view same p q)
    {k : α → Production β} {k' : α' → Production β'}
    (next : ∀ x y, same x y → Respects view same' (k x) (k' y))
    : Respects view same' (p >>= k) (q >>= k') :=
  fun _ _ alike => (first alike).bind next

/-- A production whose value does not tell the runs apart. -/
theorem Respects.bind_eq {p q : Production α} (first : Respects view (· = ·) p q)
    {k : α → Production β} {k' : α → Production β'}
    (next : ∀ x, Respects view same' (k x) (k' x))
    : Respects view same' (p >>= k) (q >>= k') :=
  first.bind fun x _ same => same ▸ next x

theorem Respects.pure {x : α} {y : α'} (agrees : same x y)
    : Respects view same (Pure.pure x) (Pure.pure y) :=
  fun _ _ alike => .ok agrees alike

theorem Respects.ite {condition : Prop} [Decidable condition] {p q : Production α}
    {p' q' : Production α'} (holds : Respects view same p p') (fails : Respects view same q q')
    : Respects view same (if condition then p else q) (if condition then p' else q') := by
  split <;> assumption

theorem respects_refuse (expected : Expectation)
    : Respects view same (refuse expected) (refuse expected) :=
  fun _ _ alike => .error (.unexpected alike.rest.head?)

theorem respects_peekKind : Respects view (· = ·) peekKind peekKind :=
  fun _ _ alike => .ok alike.ahead.kind alike

theorem respects_previous
    : Respects view (fun t u => view.left t.span = view.right u.span) previous previous :=
  fun _ _ alike => .ok alike.previous alike

theorem respects_satisfying {condition : Token → Bool}
    (decides : ∀ {t u : Token}, t.Alike view u → condition t = condition u)
    (expected : Expectation)
    : Respects view (Token.Alike view) (satisfying condition expected)
        (satisfying condition expected) := by
  rintro ⟨last, ts⟩ ⟨last', us⟩ ⟨-, rest⟩
  cases rest with
  | nil => exact .error (.unexpected .none)
  | cons alike trails rest =>
      simp only [satisfying, decides alike]
      split
      · exact .ok alike ⟨alike.span, rest⟩
      · exact .error (.unexpected (.some alike))

theorem respects_token (kind : TokenKind)
    : Respects view (Token.Alike view) (token kind) (token kind) :=
  respects_satisfying (fun alike => by rw [alike.kind]) _

theorem respects_word (expected : Expectation)
    : Respects view (Token.Alike view) (word expected) (word expected) :=
  respects_satisfying Token.Alike.isWord _

theorem respects_optional {condition : Token → Token → Bool}
    (decides : ∀ {last last' t u : Token}, t.Alike view u → last.trails t = last'.trails u
      → condition last t = condition last' u)
    : Respects view (Option.Rel (Token.Alike view)) (optional condition)
        (optional condition) := by
  rintro ⟨last, ts⟩ ⟨last', us⟩ ⟨previous, rest⟩
  cases rest with
  | nil => exact .ok .none ⟨previous, .nil⟩
  | cons alike trails rest =>
      simp only [optional, decides alike trails]
      split
      · exact .ok (.some alike) ⟨alike.span, rest⟩
      · exact .ok .none ⟨previous, .cons alike trails rest⟩

theorem respects_accept (kind : TokenKind)
    : Respects view (· = ·) (accept kind) (accept kind) := by
  refine (respects_optional fun alike _ => by rw [alike.kind]).bind fun x y agrees => ?_
  cases agrees with
  | none => exact .pure rfl
  | some => exact .pure rfl

theorem respects_trailingComment
    : Respects view (Option.Rel (Token.Alike view)) trailingComment trailingComment :=
  respects_optional fun _ trails => trails

/-- Comments in front of a declaration are taken whatever they trail, and none of the tokens
behind them is a comment.
-/
theorem leadingComments_alike {c d : Cursor} (alike : c.AlikeAhead view d)
    : EndAlike view (List.Forall₂ (Token.Alike view)) (leadingComments c)
        (leadingComments d) := by
  obtain ⟨last, ts⟩ := c
  obtain ⟨last', us⟩ := d
  obtain ⟨previous, first, first', rest⟩ := alike
  simp only at previous rest
  suffices taken : List.Forall₂ (Token.Alike view) (ts.takeWhile (·.kind = .docComment))
        (us.takeWhile (·.kind = .docComment))
      ∧ Cursor.Alike view
          ⟨(ts.takeWhile (·.kind = .docComment)).getLast?.getD last,
            ts.dropWhile (·.kind = .docComment)⟩
          ⟨(us.takeWhile (·.kind = .docComment)).getLast?.getD last',
            us.dropWhile (·.kind = .docComment)⟩ from
    .ok taken.1 taken.2
  induction rest generalizing last last' with
  | nil => exact ⟨.nil, previous, .nil⟩
  | @cons _ _ t u ts us alike trails rest ih =>
      by_cases isComment : t.kind = .docComment
      · have isComment' : u.kind = .docComment := alike.kind ▸ isComment
        obtain ⟨taken, stops⟩ := ih t u alike.span
        simp only [isComment, isComment', decide_true, List.takeWhile_cons_of_pos,
          List.dropWhile_cons_of_pos, List.getLast?_cons, Option.getD_some]
        exact ⟨.cons alike taken, stops⟩
      · have isComment' : u.kind ≠ .docComment := alike.kind ▸ isComment
        simp only [isComment, isComment', decide_false, Bool.false_eq_true, not_false_eq_true,
          List.takeWhile_cons_of_neg, List.dropWhile_cons_of_neg, List.getLast?_nil,
          Option.getD_none]
        refine ⟨.nil, previous, .cons alike ?_ rest⟩
        simp [Token.trails, isComment, isComment']

theorem respects_leadingComments
    : Respects view (List.Forall₂ (Token.Alike view)) leadingComments leadingComments :=
  fun _ _ alike => leadingComments_alike alike.ahead

theorem respects_skipGroup (opening closing : TokenKind) {last last' : Token}
    {ts us : List Token} (rest : Token.AlikeBehind view last last' ts us) (depth : Nat)
    : EndAlike view (· = ·) (skipGroup opening closing depth ts)
        (skipGroup opening closing depth us) := by
  induction rest generalizing depth with
  | nil => exact .error (.unexpected .none)
  | cons alike trails rest ih =>
      unfold skipGroup
      rw [alike.kind]
      split
      · exact ih _
      · split
        · cases depth with
          | zero => exact .ok rfl ⟨alike.span, rest⟩
          | succ depth => exact ih _
        · exact ih _

theorem respects_group (opening closing : TokenKind)
    : Respects view (· = ·) (group opening closing) (group opening closing) :=
  (respects_token opening).bind fun _ _ _ _ _ alike =>
    respects_skipGroup opening closing alike.rest 0

theorem repeated_eq (p : Production (Option α)) (advances : Advances p) (c : Cursor)
    : repeated p advances c
      = match p c with
        | .error fault => .error fault
        | .ok (none, next) => .ok ([], next)
        | .ok (some x, next) =>
            match repeated p advances next with
            | .error fault => .error fault
            | .ok (xs, last) => .ok (x :: xs, last) := by
  rw [repeated]
  split
  next failed => rw [failed]
  next stopped => rw [stopped]
  next read =>
    rewrite [read]
    rfl

/-- Runs of a loop end alike if its steps do, by induction on the tokens to come. A loop may
begin at cursors that are less alike, if its steps may.
-/
theorem repeated_alike {p : Production (Option α)} {q : Production (Option α')}
    (advances : Advances p) (advances' : Advances q) {begins : Cursor → Cursor → Prop}
    (goesOn : ∀ ⦃c d⦄, c.Alike view d → begins c d)
    (step : ∀ ⦃c d⦄, begins c d → EndAlike view (Option.Rel same) (p c) (q d))
    {c d : Cursor} (alike : begins c d)
    : EndAlike view (List.Forall₂ same) (repeated p advances c) (repeated q advances' d) := by
  induction length : c.rest.length using Nat.strongRecOn generalizing c d with
  | ind n ih =>
      have stepsAlike := step alike
      rw [repeated_eq p, repeated_eq q]
      generalize read : p c = ending at stepsAlike ⊢
      generalize q d = ending' at stepsAlike ⊢
      cases stepsAlike with
      | error alike => exact .error alike
      | ok agrees alike =>
          cases agrees with
          | none => exact .ok .nil alike
          | some agrees =>
              have rest := ih _ (length ▸ advances _ _ _ read) (goesOn alike) rfl
              dsimp only
              generalize repeated p advances _ = ending at rest ⊢
              generalize repeated q advances' _ = ending' at rest ⊢
              cases rest with
              | error alike => exact .error alike
              | ok agreeing alike => exact .ok (.cons agrees agreeing) alike

theorem Respects.repeated {p : Production (Option α)} {q : Production (Option α')}
    (step : Respects view (Option.Rel same) p q) (advances : Advances p)
    (advances' : Advances q)
    : Respects view (List.Forall₂ same) (repeated p advances) (repeated q advances') :=
  fun _ _ alike => repeated_alike advances advances' (fun _ _ alike => alike) step alike

end Production

end SchemaDoc
