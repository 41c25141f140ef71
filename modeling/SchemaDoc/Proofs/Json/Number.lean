import Mathlib.Data.Nat.Digits.Defs
import SchemaDoc.Json.Written.Number
import SchemaDoc.Proofs.Binary64.Numeral

/-! Whole numbers in JSON.
The digits of a whole number of sixty-four bits are read back as the same number, whatever stands
behind them that is no part of a number.
-/

namespace SchemaDoc.Json.Written

open Binary64 (signOf)

/-- The digits of a positive number do not begin with a zero. -/
theorem head?_toDigits_ne_zero {n : Nat} (notZero : n ≠ 0)
    : (Nat.toDigits 10 n).head? ≠ some '0' := by
  induction n using Nat.strongRecOn with
  | ind n ih =>
      rcases Nat.lt_or_ge n 10 with isDigit | isLong
      · have digits : ∀ d < 10, d ≠ 0 → Nat.digitChar d ≠ '0' := by decide
        rw [Nat.toDigits_of_lt_base isDigit, List.head?_cons]
        exact fun same => digits n isDigit notZero (Option.some.inj same)
      · have isSmaller : n / 10 < n := Nat.div_lt_self (by omega) (by decide)
        have split := Nat.toDigits_append_toDigits (b := 10) (by decide)
          (show 0 < n / 10 by omega) (Nat.mod_lt n (by decide))
        rw [Nat.div_add_mod] at split
        rw [← split, List.head?_append_of_ne_nil _ Nat.toDigits_ne_nil]
        exact ih (n / 10) isSmaller (by omega)

theorem le_ofDigitChars (digits : List Char) (n : Nat) : n ≤ Nat.ofDigitChars 10 digits n := by
  rw [Nat.ofDigitChars_eq_ofDigitChars_zero]
  have := Nat.le_mul_of_pos_left n (Nat.pow_pos (n := digits.length) (show 0 < 10 by decide))
  omega

/-- Digits are left over only if they go beyond sixty-four bits. -/
theorem absorb_eq {n : Nat} {digits : List Char}
    (inRange : Nat.ofDigitChars 10 digits n ≤ maxInteger)
    : absorb n digits = (Nat.ofDigitChars 10 digits n, []) := by
  induction digits generalizing n with
  | nil => rfl
  | cons c digits ih =>
      rw [Nat.ofDigitChars_cons, Nat.mul_comm 10] at inRange ⊢
      have fits := Nat.le_trans (le_ofDigitChars digits _) inRange
      rw [absorb, if_neg (Nat.not_lt.mpr fits), ih inRange]

/-- What follows a number in a text: no character that would go on with it. -/
def EndsNumber (rest : List Char) : Prop :=
  ∀ c ∈ rest.head?, c.isDigit = false ∧ c ≠ '.' ∧ c ≠ 'e' ∧ c ≠ 'E'

theorem scanDigits_append (onOther : List Char → Fault) {digits rest : List Char}
    (areDigits : ∀ c ∈ digits, c.isDigit = true) (notNil : digits ≠ [])
    (ends : ∀ c ∈ rest.head?, c.isDigit = false)
    : scanDigits onOther (digits ++ rest) = .ok (digits, rest) := by
  have front := takeWhile_append_of_fails ends digits
  have back := dropWhile_append_of_fails ends digits
  rw [List.takeWhile_eq_self_iff.mpr areDigits] at front back
  obtain ⟨c, others, rfl⟩ := List.exists_cons_of_ne_nil notNil
  simp only [scanDigits, front, back]

theorem scanWhole_toDigits (n : Nat) {rest : List Char}
    (ends : ∀ c ∈ rest.head?, c.isDigit = false)
    : scanWhole (Nat.toDigits 10 n ++ rest) = .ok (Nat.toDigits 10 n, rest) := by
  have areDigits : ∀ c ∈ Nat.toDigits 10 n, c.isDigit = true := fun c isMember =>
    Nat.isDigit_of_mem_toDigits (by decide) (by decide) isMember
  rw [scanWhole, scanDigits_append _ areDigits Nat.toDigits_ne_nil ends]
  simp only [bind, Except.bind]
  split
  next digits c more isLong =>
    by_cases isZero : n = 0
    · simp [isZero, show Nat.toDigits 10 0 = ['0'] by decide] at isLong
    · exact absurd (congrArg List.head? isLong) (head?_toDigits_ne_zero isZero)
  next => rfl

theorem scanFraction_of_ends {rest : List Char} (ends : EndsNumber rest)
    : scanFraction rest = .ok (none, rest) := by
  rw [scanFraction]
  rintro after rfl
  exact (ends '.' rfl).2.1 rfl

theorem scanExponent_of_ends {rest : List Char} (ends : EndsNumber rest)
    : scanExponent rest = .ok (none, rest) := by
  cases rest with
  | nil => rfl
  | cons c rest =>
      obtain ⟨-, -, notSmall, notLarge⟩ := ends c rfl
      simp only [scanExponent, if_neg (not_or.mpr ⟨notSmall, notLarge⟩)]

theorem scanParts_toDigits (negative : Bool) (n : Nat) {rest : List Char}
    (ends : EndsNumber rest)
    : scanParts (signOf negative ++ (Nat.toDigits 10 n ++ rest))
      = .ok (⟨negative, Nat.toDigits 10 n, none, none⟩, rest) := by
  have whole := scanWhole_toDigits n (fun c isHead => (ends c isHead).1)
  cases negative with
  | true =>
      rw [signOf, if_pos rfl, List.singleton_append, scanParts]
      simp only [bind, Except.bind, whole, scanFraction_of_ends ends, scanExponent_of_ends ends]
  | false =>
      rw [signOf, if_neg Bool.false_ne_true, List.nil_append, scanParts]
      · simp only [bind, Except.bind, whole, scanFraction_of_ends ends, scanExponent_of_ends ends]
      · intro behind isSigned
        have isHead : '-' ∈ Nat.toDigits 10 n := List.mem_of_head? (by
          rw [← List.head?_append_of_ne_nil _ Nat.toDigits_ne_nil, isSigned, List.head?_cons])
        exact absurd (Nat.isDigit_of_mem_toDigits (by decide) (by decide) isHead) (by decide)

/-- Whole numbers of sixty-four bits are kept as they are. -/
theorem value?_toDigits {n : Int} (isLeast : -2 ^ 63 ≤ n) (isLess : n < 2 ^ 64)
    : (NumberParts.mk (decide (n < 0)) (Nat.toDigits 10 n.natAbs) none none).value?
      = some (.integer n) := by
  have absorbed : absorb 0 (Nat.toDigits 10 n.natAbs) = (n.natAbs, []) := by
    have absorbed := @absorb_eq 0 (Nat.toDigits 10 n.natAbs)
    rw [Nat.ofDigitChars_ten_toDigits] at absorbed
    refine absorbed ?_
    simp only [maxInteger, Nat.pow_eq]
    omega
  simp only [NumberParts.value?, absorbed, Nat.pow_eq]
  rcases lt_or_ge n 0 with isNegative | notNegative
  · have fits : 0 < n.natAbs ∧ n.natAbs ≤ 2 ^ 63 := by omega
    have number : -(n.natAbs : Int) = n := by omega
    rw [decide_eq_true isNegative, if_neg (by decide), if_pos fits, number]
  · have number : (n.natAbs : Int) = n := by omega
    rw [decide_eq_false (Int.not_lt.mpr notNegative), if_pos (by decide), number]

/-- A whole number of sixty-four bits is read back from its digits. -/
theorem scanNumber_render_integer {n : Int} (isLeast : -2 ^ 63 ≤ n) (isLess : n < 2 ^ 64)
    {rest : List Char} (ends : EndsNumber rest)
    : scanNumber ((Number.integer n).render ++ rest) = (number (.integer n), some rest) := by
  rw [scanNumber, Number.render, Binary64.toList_toString, List.append_assoc,
    scanParts_toDigits _ _ ends]
  simp only [value?_toDigits isLeast isLess]

end SchemaDoc.Json.Written
