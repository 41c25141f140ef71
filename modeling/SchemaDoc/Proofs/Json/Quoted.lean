import Mathlib.Data.String.Basic
import SchemaDoc.Json.Basic
import SchemaDoc.Json.Written.Quoted

/-! Every text comes back from its written form in JSON, whatever characters it holds.
The reader takes each character as it was escaped, so the text behind does not matter.
-/

namespace SchemaDoc.Json

open Written

/-- A digit in base sixteen is read as its value. -/
theorem hexValue?_hexDigit {n : Nat} (small : n < 16) : hexValue? (hexDigit n) = some n := by
  have all : ∀ n < 16, hexValue? (hexDigit n) = some n := by decide
  exact all n small

/-- A control is read from its two digits, which name no half of a pair. -/
theorem scanEscape_control {c : Char} (isControl : c.toNat < 0x20) (rest : List Char)
    : scanEscape ('u' :: '0' :: '0' :: hexDigit (c.toNat / 16) :: hexDigit c.toNat :: rest)
      = .ok ⟨c, none, rest⟩ := by
  have high : hexValue? (hexDigit (c.toNat / 16)) = some (c.toNat / 16) :=
    hexValue?_hexDigit (by omega)
  have low : hexValue? (hexDigit c.toNat) = some (c.toNat % 16) := by
    have same : hexDigit c.toNat = hexDigit (c.toNat % 16) := by simp [hexDigit]
    rw [same]
    exact hexValue?_hexDigit (by omega)
  have zero : hexValue? '0' = some 0 := by decide
  have unit : c.toNat / 16 * 16 + c.toNat % 16 = c.toNat := by omega
  have notLow : isLowSurrogate c.toNat = false := by
    simp only [isLowSurrogate, Bool.and_eq_false_iff, decide_eq_false_iff_not]
    omega
  have notHigh : isHighSurrogate c.toNat = false := by
    simp only [isHighSurrogate, Bool.and_eq_false_iff, decide_eq_false_iff_not]
    omega
  simp [scanEscape, scanUnit, high, low, zero, unit, notLow, notHigh]

/-- A text that goes on with an escape goes on with the character that the escape stands for. -/
theorem scanQuoted_escape {c : Char} {text behind rest : List Char}
    (reads : scanEscape text = .ok ⟨c, none, behind⟩) {content : List Char}
    (follows : scanQuoted behind = .ok ⟨content, none, rest⟩)
    : scanQuoted ('\\' :: text) = .ok ⟨c :: content, none, rest⟩ := by
  rw [scanQuoted, if_neg (by decide), if_pos rfl]
  split
  next fault failed => simp [failed] at reads
  next escape read =>
    obtain rfl := Except.ok.inj (read.symm.trans reads)
    simp [follows]

/-- A character that needs no escape stands for itself. -/
theorem scanQuoted_plain {c : Char} (notQuote : c ≠ '"') (notEscape : c ≠ '\\')
    (notControl : ¬c.toNat < 0x20) {text content rest : List Char}
    (follows : scanQuoted text = .ok ⟨content, none, rest⟩)
    : scanQuoted (c :: text) = .ok ⟨c :: content, none, rest⟩ := by
  rw [scanQuoted]
  simp [notQuote, notEscape, notControl, follows]

/-- A written character is read as what it is, in front of whatever follows it. -/
theorem scanQuoted_escapeChar (c : Char) {text content rest : List Char}
    (follows : scanQuoted text = .ok ⟨content, none, rest⟩)
    : scanQuoted (escapeChar c ++ text) = .ok ⟨c :: content, none, rest⟩ := by
  fun_cases escapeChar c
  case case1 | case2 | case3 | case4 | case5 | case6 | case7 =>
    subst_vars
    exact scanQuoted_escape (by simp [scanEscape]) follows
  case case8 isControl =>
    exact scanQuoted_escape (scanEscape_control isControl text) follows
  case case9 notQuote notEscape _ _ _ _ _ notControl =>
    exact scanQuoted_plain notQuote notEscape notControl follows

/-- A written text is read up to its closing quote, by induction on its characters. -/
theorem scanQuoted_flatMap_escapeChar (text rest : List Char)
    : scanQuoted (text.flatMap escapeChar ++ '"' :: rest) = .ok ⟨text, none, rest⟩ := by
  induction text with
  | nil => rw [List.flatMap_nil, List.nil_append, scanQuoted, if_pos rfl]
  | cons c text ih =>
      rw [List.flatMap_cons, List.append_assoc]
      exact scanQuoted_escapeChar c ih

/-- Nothing below the space stands in a written character. -/
theorem not_lt_of_mem_escapeChar {c x : Char} (isMember : x ∈ escapeChar c)
    : ¬x.toNat < 0x20 := by
  have digit (n : Nat) : 0x20 ≤ (hexDigit n).toNat := by
    have all : ∀ n < 16, 0x20 ≤ (Nat.digitChar n).toNat := by decide
    exact all _ (Nat.mod_lt _ (by decide))
  revert x
  fun_cases escapeChar c
  case case1 | case2 | case3 | case4 | case5 | case6 | case7 => simp
  case case8 => simp [digit]
  case case9 notControl => simpa using notControl

/-- Nothing below the space stands in a written text. -/
theorem not_lt_of_mem_renderString {text : String} {c : Char} (isMember : c ∈ renderString text)
    : ¬c.toNat < 0x20 := by
  simp only [renderString, List.cons_append, List.mem_cons, List.mem_append,
    List.mem_flatMap, List.not_mem_nil, or_false] at isMember
  rcases isMember with rfl | ⟨x, -, isWritten⟩ | rfl
  · decide
  · exact not_lt_of_mem_escapeChar isWritten
  · decide

end SchemaDoc.Json
