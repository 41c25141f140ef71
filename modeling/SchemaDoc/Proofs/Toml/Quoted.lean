import Mathlib.Data.List.TakeWhile
import SchemaDoc.Toml.Quoted

/-! Every text comes back from its quoted form in TOML, in whatever style it is written.
What stands between the quotes spells the text character by character, with no more quote marks
in a row than the style can hold.
-/

namespace SchemaDoc.Toml

namespace Style

/-- Characters between the quotes of a style that stand for a text, behind some number of quote
marks in a row.
-/
inductive Spells (style : Style) : Nat → List Char → List Char → Prop
  | nil {marks} : Spells style marks [] []
  | mark {marks text body} (room : marks < style.maxMarks)
    (spells : Spells style (marks + 1) text body)
    : Spells style marks (style.mark :: text) (style.mark :: body)
  | lineBreak {marks text body} (isMultiline : style.isMultiline = true)
    (spells : Spells style 0 text body)
    : Spells style marks ('\n' :: text) ('\n' :: body)
  | plain {marks c text body} (notMark : c ≠ style.mark)
    (notEscape : ¬(c = '\\' ∧ style.isBasic = true)) (notControl : isControl c = false)
    (spells : Spells style 0 text body)
    : Spells style marks (c :: text) (c :: body)
  | escape {marks c text body} (sign : List Char) (isBasic : style.isBasic = true)
    (stands : ∀ rest, escape? (sign ++ rest) = some (c, rest))
    (noBreak : ∀ rest, behindContinuation? (sign ++ rest) = none)
    (spells : Spells style 0 text body)
    : Spells style marks (c :: text) ('\\' :: (sign ++ body))

variable {style : Style} {marks : Nat} {text body : List Char}

-----------------------------------------------------------------------------------------
-- Quote marks
-----------------------------------------------------------------------------------------

theorem mark_ne_backslash (style : Style) : style.mark ≠ '\\' := by
  rw [mark]
  split <;> decide

theorem mark_ne_newline (style : Style) : style.mark ≠ '\n' := by
  rw [mark]
  split <;> decide

theorem quote_eq_cons (style : Style) : ∃ marks, style.quote = style.mark :: marks := by
  rw [quote]
  split <;> exact ⟨_, rfl⟩

theorem maxMarks_le (style : Style) : style.maxMarks ≤ 2 := by
  rw [maxMarks]
  split <;> decide

theorem isMultiline_of_lt (room : marks < style.maxMarks) : style.isMultiline = true := by
  cases isMultiline : style.isMultiline with
  | false => simp [maxMarks, isMultiline] at room
  | true => rfl

/-- What spells a text never has more marks in a row than the style can hold. -/
theorem Spells.takeWhile_le (spells : Spells style marks text body)
    (room : marks ≤ style.maxMarks)
    : marks + (body.takeWhile (· = style.mark)).length ≤ style.maxMarks := by
  induction spells with
  | nil => simpa using room
  | mark free spells ih =>
      have := ih free
      simp only [decide_true, List.takeWhile_cons_of_pos, List.length_cons]
      omega
  | lineBreak => simpa [style.mark_ne_newline.symm] using room
  | plain notMark => simpa [notMark] using room
  | escape => simpa [style.mark_ne_backslash.symm] using room

/-- Nothing but marks stands for those marks. -/
theorem Spells.eq_of_marks (spells : Spells style marks text body)
    (areMarks : ∀ c ∈ body, c = style.mark)
    : text = body := by
  induction spells with
  | nil => rfl
  | mark _ _ ih => rw [ih fun c isMember => areMarks c (List.mem_cons_of_mem _ isMember)]
  | lineBreak => exact absurd (areMarks _ List.mem_cons_self).symm style.mark_ne_newline
  | plain notMark => exact absurd (areMarks _ List.mem_cons_self) notMark
  | escape => exact absurd (areMarks _ List.mem_cons_self).symm style.mark_ne_backslash

-----------------------------------------------------------------------------------------
-- Reading
-----------------------------------------------------------------------------------------

section Reading

variable {c : Char} {rest content behind : List Char}

/-- Marks in front of a closing quote belong to the text, as many as the style can hold. -/
theorem scan_quote (few : marks ≤ style.maxMarks) (ends : rest.head? ≠ some style.mark)
    : style.scan (List.replicate marks style.mark ++ (style.quote ++ rest))
      = some (List.replicate marks style.mark, rest) := by
  have noMore : rest.takeWhile (fun c => decide (c = style.mark)) = [] := by
    cases rest with
    | nil => rfl
    | cons c rest =>
        have notMark : c ≠ style.mark := by simpa using ends
        simp [notMark]
  cases isMultiline : style.isMultiline with
  | false =>
      obtain rfl : marks = 0 := by simpa [maxMarks, isMultiline] using few
      simp [quote, isMultiline, scan]
  | true =>
      replace few : marks ≤ 2 := Nat.le_trans few style.maxMarks_le
      have all : List.replicate marks style.mark ++ (style.quote ++ rest)
          = style.mark :: (List.replicate (marks + 2) style.mark ++ rest) := by
        rw [quote, isMultiline, if_pos rfl, ← List.append_assoc, List.replicate_append_replicate,
          ← List.cons_append, ← List.replicate_succ]
      have run : ((style.mark :: (List.replicate (marks + 2) style.mark ++ rest)).takeWhile
          (fun c => decide (c = style.mark))).length = marks + 3 := by
        simp [noMore]
      have kept : min (marks + 3 - 3) 2 = marks := by omega
      have behind : (style.mark :: (List.replicate (marks + 2) style.mark ++ rest)).drop (marks + 3)
          = rest := by
        rw [List.drop_succ_cons, List.drop_left' (by simp)]
      have many : ¬marks + 3 < 3 := by omega
      rw [all, scan, if_pos rfl]
      simp only [run, isMultiline, kept, behind, many]
      simp

theorem scan_mark (isMultiline : style.isMultiline = true)
    (few : ((style.mark :: rest).takeWhile (· = style.mark)).length < 3)
    (follows : style.scan rest = some (content, behind))
    : style.scan (style.mark :: rest) = some (style.mark :: content, behind) := by
  rw [scan, if_pos rfl]
  simp only [isMultiline, Bool.not_true, Bool.false_eq_true, if_false, few, if_true, follows,
    Option.map_some]

theorem scan_lineBreak (isMultiline : style.isMultiline = true)
    (follows : style.scan rest = some (content, behind))
    : style.scan ('\n' :: rest) = some ('\n' :: content, behind) := by
  rw [scan, if_neg style.mark_ne_newline.symm, if_neg (by simp), if_pos isMultiline]
  split
  next behind found =>
    obtain rfl := Option.some.inj found
    rw [follows]
    rfl
  next failed => cases failed

theorem scan_plain (notMark : c ≠ style.mark)
    (notEscape : ¬(c = '\\' ∧ style.isBasic = true)) (notControl : isControl c = false)
    (follows : style.scan rest = some (content, behind))
    : style.scan (c :: rest) = some (c :: content, behind) := by
  have noBreak : behindBreak? (c :: rest) = none := by
    unfold behindBreak?
    split <;> simp_all [isControl]
  rw [scan, if_neg notMark, if_neg notEscape]
  split
  · split
    next behind found => simp [noBreak] at found
    next => simp [notControl, follows]
  · simp [notControl, follows]

theorem scan_escape (isBasic : style.isBasic = true) (stands : escape? rest = some (c, behind))
    (noBreak : behindContinuation? rest = none) {final : List Char}
    (follows : style.scan behind = some (content, final))
    : style.scan ('\\' :: rest) = some (c :: content, final) := by
  rw [scan, if_neg style.mark_ne_backslash.symm, if_pos ⟨rfl, isBasic⟩]
  split
  next behind found => simp [noBreak] at found
  next =>
    split
    next x behind found =>
      obtain ⟨rfl, rfl⟩ := Prod.mk.inj (Option.some.inj (found.symm.trans stands))
      simp [follows]
    next failed => simp [stands] at failed

end Reading

/-- What spells a text is read up to the closing quote, by induction on the characters. -/
theorem Spells.scan (spells : Spells style marks text body) (room : marks ≤ style.maxMarks)
    {rest : List Char} (ends : rest.head? ≠ some style.mark)
    : style.scan (body ++ (style.quote ++ rest)) = some (text, rest) := by
  induction spells with
  | nil => exact scan_quote (Nat.zero_le _) ends
  | @mark marks text body free spells ih =>
      have run := (Spells.mark free spells).takeWhile_le (Nat.le_of_lt free)
      by_cases areMarks : ∀ c ∈ body, c = style.mark
      · obtain ⟨n, same⟩ : ∃ n, style.mark :: body = List.replicate n style.mark :=
          ⟨_, List.eq_replicate_of_mem (List.forall_mem_cons.mpr ⟨rfl, areMarks⟩)⟩
        rw [spells.eq_of_marks areMarks, same]
        rw [same, List.takeWhile_replicate] at run
        exact scan_quote (by simp at run; omega) ends
      · have stops : (List.takeWhile (· = style.mark) body).length ≠ body.length := by
          intro same
          have whole := (List.takeWhile_prefix _).eq_of_length same
          exact areMarks (by simpa using List.takeWhile_eq_self_iff.mp whole)
        have few := style.maxMarks_le
        rw [List.cons_append]
        refine scan_mark (isMultiline_of_lt free) ?_ (ih free)
        simp only [decide_true, List.takeWhile_cons_of_pos, List.length_cons,
          List.takeWhile_append, stops, if_false] at run ⊢
        omega
  | lineBreak isMultiline _ ih => exact scan_lineBreak isMultiline (ih (Nat.zero_le _))
  | plain notMark notEscape notControl _ ih =>
      exact scan_plain notMark notEscape notControl (ih (Nat.zero_le _))
  | escape sign isBasic stands noBreak _ ih =>
      rw [List.cons_append, List.append_assoc]
      exact scan_escape isBasic (stands _) (noBreak _) (ih (Nat.zero_le _))

-----------------------------------------------------------------------------------------
-- Writing
-----------------------------------------------------------------------------------------

/-- A digit in base sixteen is read as its value. -/
theorem hexDigit?_upperHex (n : Nat) : hexDigit? (upperHex n) = some (n % 16) := by
  have all : ∀ n < 16, hexDigit? (Nat.digitChar n).toUpper = some n := by decide
  exact all _ (Nat.mod_lt _ (by decide))

/-- A control is read from its two digits. -/
theorem escape?_control {c : Char} (isControl : isControl c = true) (rest : List Char)
    : escape? ('u' :: '0' :: '0' :: upperHex (c.toNat / 16) :: upperHex c.toNat :: rest)
      = some (c, rest) := by
  have small : c.toNat < 128 := by
    simp only [Toml.isControl, Bool.or_eq_true, Bool.and_eq_true, decide_eq_true_eq,
      beq_iff_eq] at isControl
    omega
  have zero : hexDigit? '0' = some 0 := by decide
  have number : c.toNat / 16 % 16 * 16 + c.toNat % 16 = c.toNat := by omega
  have valid : c.toNat.isValidChar := c.valid
  simp [escape?, scalar?, zero, hexDigit?_upperHex, number, valid]

theorem behindContinuation?_cons {c : Char} (notBlank : isBlank c = false) (notFeed : c ≠ '\n')
    (notReturn : c ≠ '\r') (rest : List Char)
    : behindContinuation? (c :: rest) = none := by
  simp [behindContinuation?, dropBlanks, notBlank, behindBreak?, notFeed, notReturn]

/-- What a basic style writes for a character stands for it. -/
theorem spells_escapeChar (isBasic : style.isBasic = true) {c : Char} (notQuote : c ≠ '"')
    (spells : Spells style 0 text body)
    : Spells style marks (c :: text) (style.escapeChar c ++ body) := by
  have escape {c x : Char} (stands : ∀ rest, escape? (x :: rest) = some (c, rest))
      (notBlank : isBlank x = false) (notFeed : x ≠ '\n') (notReturn : x ≠ '\r')
      : Spells style marks (c :: text) ('\\' :: x :: body) :=
    .escape [x] isBasic stands (behindContinuation?_cons notBlank notFeed notReturn) spells
  fun_cases escapeChar style c
  case case1 | case2 | case4 | case5 | case6 | case7 =>
    subst_vars
    exact escape (fun _ => rfl) (by decide) (by decide) (by decide)
  case case3 isFeed isMultiline =>
    subst_vars
    exact .lineBreak isMultiline spells
  case case8 isControl =>
    exact .escape ['u', '0', '0', upperHex (c.toNat / 16), upperHex c.toNat] isBasic
      (escape?_control isControl)
      (fun _ => behindContinuation?_cons (by decide) (by decide) (by decide) _) spells
  case case9 notEscape _ _ _ _ _ notControl =>
    exact .plain (by simpa [mark, isBasic] using notQuote) (by simp [notEscape])
      (by simpa using notControl) spells

/-- What a basic style writes stands for the text, by induction on its characters. -/
theorem spells_escapeFrom (isBasic : style.isBasic = true) (marks : Nat) (text : List Char)
    : Spells style marks text (style.escapeFrom marks text) := by
  have isQuote : style.mark = '"' := if_pos isBasic
  fun_induction escapeFrom style marks text with
  | case1 => exact .nil
  | case2 marks rest room ih =>
      rw [← isQuote]
      exact .mark room ih
  | case3 marks rest full ih =>
      exact .escape ['"'] isBasic (fun _ => rfl)
        (behindContinuation?_cons (by decide) (by decide) (by decide)) ih
  | case4 marks c rest notQuote ih => exact spells_escapeChar isBasic notQuote ih

theorem le_longestRun (mark : Char) (run : Nat) (text : List Char)
    : run ≤ longestRun mark run text := by
  fun_induction longestRun mark run text <;> omega

/-- A text that a literal style can hold stands for itself. -/
theorem spells_self (notBasic : style.isBasic = false)
    (clean : ∀ c ∈ text, (c = '\n' ∧ style.isMultiline = true) ∨ isControl c = false)
    (few : longestRun style.mark marks text ≤ style.maxMarks)
    : Spells style marks text text := by
  induction text generalizing marks with
  | nil => exact .nil
  | cons c text ih =>
      obtain ⟨cleanChar, cleanText⟩ := List.forall_mem_cons.mp clean
      by_cases isMark : c = style.mark
      · rw [longestRun, if_pos isMark] at few
        have room := Nat.le_trans (le_longestRun style.mark (marks + 1) text) few
        rw [isMark]
        exact .mark room (ih cleanText few)
      · rw [longestRun, if_neg isMark] at few
        have spells := ih cleanText (Nat.le_trans (Nat.le_max_right _ _) few)
        rcases cleanChar with ⟨rfl, isMultiline⟩ | notControl
        · exact .lineBreak isMultiline spells
        · exact .plain isMark (by simp [notBasic]) notControl spells

/-- A text's own style is a basic one unless it can hold the text as it is. -/
theorem fits_ofText {text : List Char} (notBasic : (ofText text).isBasic = false)
    : (ofText text).fits text = true := by
  rw [ofText] at notBasic ⊢
  cases search : List.find? (fun style : Style => style.fits text)
      [⟨true, false⟩, ⟨false, false⟩, ⟨true, true⟩, ⟨false, true⟩] with
  | none => simp [search] at notBasic
  | some style => simpa [search] using List.find?_some search

/-- A text as its style writes it between the quotes. -/
theorem spells_ofText (text : List Char)
    : Spells (ofText text) 0 text
        (if (ofText text).isBasic then (ofText text).escapeFrom 0 text else text) := by
  cases isBasic : (ofText text).isBasic with
  | true => exact spells_escapeFrom isBasic 0 text
  | false =>
      have whole := fits_ofText isBasic
      simp only [fits, isBasic, Bool.and_false, Bool.or_false, Bool.and_eq_true, List.all_eq_true,
        Bool.or_eq_true, beq_iff_eq, Bool.not_eq_true', decide_eq_true_eq] at whole
      exact spells_self isBasic whole.1 whole.2

-----------------------------------------------------------------------------------------
-- Quotes
-----------------------------------------------------------------------------------------

theorem behindBreak?_cons {c : Char} (notFeed : c ≠ '\n') (notReturn : c ≠ '\r')
    (rest : List Char)
    : behindBreak? (c :: rest) = none := by
  simp [behindBreak?, notFeed, notReturn]

theorem mark_ne_return (style : Style) : style.mark ≠ '\r' := by
  rw [mark]
  split <;> decide

/-- A text without line breaks does not begin with one between its quotes either. -/
theorem Spells.behindBreak? (spells : Spells style marks text body) (oneLine : '\n' ∉ text)
    (rest : List Char)
    : Toml.behindBreak? (body ++ style.mark :: rest) = none := by
  cases spells with
  | nil | mark => exact behindBreak?_cons style.mark_ne_newline style.mark_ne_return _
  | lineBreak => simp at oneLine
  | plain _ _ notControl =>
      refine behindBreak?_cons ?_ ?_ _ <;>
        (rintro rfl; simp [isControl] at notControl)
  | escape => exact behindBreak?_cons (by decide) (by decide) _

theorem openStyle?_multiline (isBasic : Bool) (rest : List Char)
    : openStyle? (quote ⟨isBasic, true⟩ ++ rest)
      = some (⟨isBasic, true⟩, (Toml.behindBreak? rest).getD rest) := by
  cases isBasic <;> rfl

/-- One mark opens a text on one line, unless two more marks are behind it. -/
theorem openStyle?_oneLine (isBasic : Bool) {c : Char} (notMark : c ≠ mark ⟨isBasic, false⟩)
    (rest : List Char)
    : openStyle? (mark ⟨isBasic, false⟩ :: c :: rest) = some (⟨isBasic, false⟩, c :: rest) := by
  cases isBasic with
  | false =>
      replace notMark : c ≠ '\x27' := notMark
      simp [openStyle?, mark, notMark]
  | true =>
      replace notMark : c ≠ '"' := notMark
      simp [openStyle?, mark, notMark]

/-- A written text is opened in its style, if a line ends behind it. -/
theorem Spells.openStyle? (spells : Spells style 0 text body) (rest : List Char)
    : openStyle? (style.quote
        ++ ((if style.isMultiline && text.contains '\n' then ['\n'] else [])
          ++ (body ++ (style.quote ++ '\n' :: rest))))
      = some (style, body ++ (style.quote ++ '\n' :: rest)) := by
  rcases style with ⟨isBasic, isMultiline⟩
  cases isMultiline with
  | true =>
      rw [openStyle?_multiline]
      by_cases oneLine : '\n' ∈ text
      · simp [oneLine, Toml.behindBreak?]
      · have noBreak := spells.behindBreak? oneLine
        simp [oneLine, quote, List.replicate_succ, noBreak]
  | false =>
      cases spells with
      | nil => cases isBasic <;> rfl
      | mark room => simp [maxMarks] at room
      | lineBreak isMultiline => simp at isMultiline
      | plain notMark => exact openStyle?_oneLine isBasic notMark _
      | escape => exact openStyle?_oneLine isBasic (mark_ne_backslash _).symm _

/-- A written text is read back from its style, if a line ends behind it. -/
theorem Spells.scanQuoted (spells : Spells style 0 text body) (rest : List Char)
    : scanQuoted (style.quote
        ++ ((if style.isMultiline && text.contains '\n' then ['\n'] else [])
          ++ (body ++ (style.quote ++ '\n' :: rest))))
      = some (String.ofList text, '\n' :: rest) := by
  have ends : ('\n' :: rest).head? ≠ some style.mark := by simp [style.mark_ne_newline.symm]
  rw [Toml.scanQuoted, spells.openStyle? rest]
  simp [spells.scan (Nat.zero_le _) ends]

end Style

/-- Every text is read back from its quoted form, if a line ends behind it. -/
theorem scanQuoted_writeQuoted (text : String) (rest : List Char)
    : scanQuoted (writeQuoted text ++ '\n' :: rest) = some (text, '\n' :: rest) := by
  have reads := (Style.spells_ofText text.toList).scanQuoted rest
  simpa only [writeQuoted, Style.write, List.append_assoc, String.ofList_toList] using reads

end SchemaDoc.Toml
