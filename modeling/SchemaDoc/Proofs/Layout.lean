import SchemaDoc.Config.Basic
import SchemaDoc.Proofs.Grammar.AlignedReading

/-! The layout of schema text does not matter, but for comments that trail a token.
Texts whose tokens agree in kind, text and in what they trail are read alike, also when they are
no schemas.
-/

namespace SchemaDoc

-----------------------------------------------------------------------------------------
-- Tokens that differ in layout only
-----------------------------------------------------------------------------------------

/-- Whether each token behind the first is a documentation comment on the line of the token
before it.
-/
def Token.trailing (tokens : List Token) : List Bool :=
  List.zipWith Token.trails tokens tokens.tail

/-- Tokens that agree one by one in kind and text, and in whether they trail the one before. -/
structure Token.DifferInLayout (ts us : List Token) : Prop where
  kinds : ts.map Token.kind = us.map Token.kind
  texts : ts.map Token.text = us.map Token.text
  trailing : Token.trailing ts = Token.trailing us

instance (ts us : List Token) : Decidable (Token.DifferInLayout ts us) :=
  decidable_of_iff
    (ts.map Token.kind = us.map Token.kind ∧ ts.map Token.text = us.map Token.text
      ∧ Token.trailing ts = Token.trailing us)
    ⟨fun ⟨kinds, texts, trailing⟩ => ⟨kinds, texts, trailing⟩,
      fun ⟨kinds, texts, trailing⟩ => ⟨kinds, texts, trailing⟩⟩

/-- A view that shows no places at all. -/
def SpanView.blind : SpanView :=
  ⟨fun _ => .none, fun _ => .none, fun _ _ => rfl, fun _ _ => rfl⟩

namespace Token

theorem alike_blind {t u : Token} (kind : t.kind = u.kind) (text : t.text = u.text)
    : t.Alike .blind u :=
  ⟨kind, text, rfl⟩

theorem DifferInLayout.uncons {t u : Token} {ts us : List Token}
    (differ : DifferInLayout (t :: ts) (u :: us))
    : t.Alike .blind u ∧ DifferInLayout ts us
      ∧ ∀ t' ∈ ts.head?, ∀ u' ∈ us.head?, t.trails t' = u.trails u' := by
  obtain ⟨kind, kinds⟩ := List.cons.inj differ.kinds
  obtain ⟨text, texts⟩ := List.cons.inj differ.texts
  refine ⟨alike_blind kind text, ?_⟩
  cases ts with
  | nil =>
      obtain rfl := List.map_eq_nil_iff.mp kinds.symm
      exact ⟨⟨rfl, rfl, rfl⟩, by simp⟩
  | cons t' ts =>
      obtain ⟨u', us, rfl, -, -⟩ := List.map_eq_cons_iff.mp kinds.symm
      obtain ⟨trails, trailing⟩ := List.cons.inj differ.trailing
      exact ⟨⟨kinds, texts, trailing⟩, by simpa using trails⟩

/-- Tokens that differ in layout agree behind any two tokens, if the first ones do. -/
theorem DifferInLayout.alikeBehind {last last' : Token} {ts us : List Token}
    (differ : DifferInLayout ts us)
    (trails : ∀ t ∈ ts.head?, ∀ u ∈ us.head?, last.trails t = last'.trails u)
    : AlikeBehind .blind last last' ts us := by
  induction ts generalizing last last' us with
  | nil =>
      obtain rfl := List.map_eq_nil_iff.mp differ.kinds.symm
      exact .nil
  | cons t ts ih =>
      obtain ⟨u, us, rfl, -, -⟩ := List.map_eq_cons_iff.mp differ.kinds.symm
      obtain ⟨alike, rest, trailsNext⟩ := differ.uncons
      exact .cons alike (trails t rfl u rfl) (ih rest trailsNext)

/-- Where the first tokens stand on lines of their own, neither of them trails anything. -/
theorem DifferInLayout.exists_alikeBehind {ts us : List Token} (differ : DifferInLayout ts us)
    : ∃ last last', AlikeBehind .blind last last' ts us := by
  let before (tokens : List Token) : Token :=
    { (default : Token) with line := tokens.head?.elim 0 (·.line + 1) }
  refine ⟨before ts, before us, differ.alikeBehind fun t isFirst u isFirst' => ?_⟩
  simp [trails, before, Option.mem_def.mp isFirst, Option.mem_def.mp isFirst']

/-- Where one list is cut off by its kinds, so is the other. -/
theorem AlikeBehind.takeWhile {view : SpanView} {condition : Token → Bool}
    (decides : ∀ {t u : Token}, t.Alike view u → condition t = condition u)
    {last last' : Token} {ts us : List Token} (alike : AlikeBehind view last last' ts us)
    : AlikeBehind view last last' (ts.takeWhile condition) (us.takeWhile condition) := by
  induction alike with
  | nil => exact .nil
  | cons head trails _ ih =>
      simp only [List.takeWhile_cons, decides head]
      split
      · exact .cons head trails ih
      · exact .nil

end Token

-----------------------------------------------------------------------------------------
-- Texts that are read alike
-----------------------------------------------------------------------------------------

/-- The document that schema text gives under a configuration. -/
def Config.documentOf (config : Config) (text : String) : Except InputError Document :=
  (config.schemaOf .schemaText text).map (Document.ofSchema config.heading)

/-- Two texts that are schemas but for their places the same, with the same documents, or no
schemas for the same reason.
-/
inductive ReadAlike (a b : String) : Prop
  | ok {s t : Schema} (left : Schema.ofText false a = .ok s) (right : Schema.ofText false b = .ok t)
    (same : s.eraseSpans = t.eraseSpans)
    (documents : ∀ config : Config, config.isStrict = false →
      ∃ document, config.documentOf a = .ok document ∧ config.documentOf b = .ok document)
  | error {e e' : SyntaxError} (left : Schema.ofText false a = .error (.malformed e))
    (right : Schema.ofText false b = .error (.malformed e'))
    (same : e.fault.message = e'.fault.message)
    (documents : ∀ config : Config, config.isStrict = false →
      config.documentOf a = .error (.schemaText (.malformed e))
        ∧ config.documentOf b = .error (.schemaText (.malformed e')))

theorem Config.documentOf_eq {config : Config} (permissive : config.isStrict = false)
    (text : String)
    : config.documentOf text
      = ((Schema.ofText false text).mapError .schemaText).map
          (Document.ofSchema config.heading) := by
  rw [documentOf, schemaOf, Schema.ofInput, permissive]

theorem Schema.ofText_permissive (text : String)
    : Schema.ofText false text
      = match Production.declarations
            ⟨Token.firstEnd (tokenize text) text.utf8ByteSize, Token.beforeEnd (tokenize text)⟩ with
        | .ok (declarations, _) => .ok (.ofDeclarations declarations)
        | .error fault =>
            .error (.malformed
              (.ofFault fault (Token.firstEnd (tokenize text) text.utf8ByteSize))) := by
  simp only [Schema.ofText, Bool.false_eq_true, if_false, Schema.ofTokens]
  rcases Production.declarations _ with _ | ⟨_, _⟩ <;> rfl

/-- Texts that differ in their layout only are read alike. -/
theorem layout_does_not_matter {a b : String}
    (differ : Token.DifferInLayout (Token.significant (tokenize a))
      (Token.significant (tokenize b)))
    : ReadAlike a b := by
  obtain ⟨last, last', alike⟩ := differ.exists_alikeBehind
  have before : Token.AlikeBehind .blind last last' (Token.beforeEnd (tokenize a))
      (Token.beforeEnd (tokenize b)) :=
    alike.takeWhile fun alike => by rw [alike.kind]
  have begins : Cursor.AlikeAhead .blind
      ⟨Token.firstEnd (tokenize a) a.utf8ByteSize, Token.beforeEnd (tokenize a)⟩
      ⟨Token.firstEnd (tokenize b) b.utf8ByteSize, Token.beforeEnd (tokenize b)⟩ :=
    ⟨rfl, last, last', before⟩
  have runs := Production.declarations_alike begins
  have left := Schema.ofText_permissive a
  have right := Schema.ofText_permissive b
  generalize Production.declarations _ = ending, Production.declarations _ = ending'
    at runs left right
  cases runs with
  | @ok ds ds' _ _ agree _ =>
      have same : (Schema.ofDeclarations ds).eraseSpans = (Schema.ofDeclarations ds').eraseSpans :=
        Schema.ofDeclarations_same agree
      refine .ok left right same fun config permissive => ?_
      refine ⟨Document.ofSchema config.heading (.ofDeclarations ds), ?_, ?_⟩
      · rw [config.documentOf_eq permissive, left]
        rfl
      · rw [config.documentOf_eq permissive, right,
          Document.ofSchema_eq_of_eraseSpans same config.heading]
        rfl
  | error alike =>
      refine .error left right alike.message fun config permissive => ⟨?_, ?_⟩
      · rw [config.documentOf_eq permissive, left]
        rfl
      · rw [config.documentOf_eq permissive, right]
        rfl

/-- Blank lines, blanks and plain comments may come and go, and what documents a declaration
from in front of it may stand on any line.
-/
theorem layout_does_not_matter_user
    : let a := "/// who\nmodel User \x7b // people\n  id Int @id /// key\n  role Role?\n\x7d\n"
        ++ "enum Role \x7b A B \x7d"
      let b := "\n  /// who\n\nmodel User\n\x7bid\tInt\n@id /// key\nrole // one\nRole?\x7d"
        ++ "enum Role\x7bA\n\nB\x7d\n"
      Token.DifferInLayout (Token.significant (tokenize a)) (Token.significant (tokenize b))
        ∧ ReadAlike a b := by
  intro a b
  have differ
      : Token.DifferInLayout (Token.significant (tokenize a)) (Token.significant (tokenize b)) := by
    decide +kernel
  exact ⟨differ, layout_does_not_matter differ⟩

end SchemaDoc
