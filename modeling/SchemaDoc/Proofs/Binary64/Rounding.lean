import Mathlib.Tactic.Ring
import SchemaDoc.Binary64.Shortest

/-! Whole numbers as numbers of sixty-four bits.
Below two to the power of 53 they are held exactly. Any whole number that is as near to a held one
as its neighbourhood says is rounded to it.
-/

namespace SchemaDoc.Binary64

-----------------------------------------------------------------------------------------
-- Rounding a quotient
-----------------------------------------------------------------------------------------

/-- The whole number at most half away from a quotient is its rounding, provided that an odd one is
nearer than that.
-/
theorem divideToEven_eq {n d m : Nat} (isPositive : 0 < d)
    (below : 2 * (d * m) ≤ 2 * n + d) (above : 2 * n ≤ 2 * (d * m) + d)
    (odd : m % 2 = 1 → 2 * (d * m) < 2 * n + d ∧ 2 * n < 2 * (d * m) + d)
    : divideToEven n d = m := by
  have split := Nat.div_add_mod n d
  have small := Nat.mod_lt n isPositive
  simp only [divideToEven]
  generalize n / d = q at split ⊢
  generalize n % d = r at split small ⊢
  subst split
  have atMost {k : Nat} (less : d * m < d * (q + k + 1)) : m ≤ q + k :=
    Nat.lt_succ_iff.mp (Nat.lt_of_mul_lt_mul_left less)
  have atLeast {k : Nat} (less : d * (q + k) < d * (m + 1)) : q + k ≤ m :=
    Nat.lt_succ_iff.mp (Nat.lt_of_mul_lt_mul_left less)
  have leM : q ≤ m := by
    refine @atLeast 0 ?_
    simp only [Nat.mul_add, Nat.mul_zero]
    omega
  split
  · have : m ≤ q := by
      refine @atMost 0 ?_
      simp only [Nat.mul_add, Nat.mul_zero]
      omega
    omega
  have mLe : m ≤ q + 1 := by
    refine atMost ?_
    simp only [Nat.mul_add]
    omega
  split
  · have : q + 1 ≤ m := by
      refine atLeast ?_
      simp only [Nat.mul_add]
      omega
    omega
  · -- the quotient is half-way between two whole numbers, so an odd one is too far away
    rcases Nat.lt_or_ge q m with isNext | isQuotient
    · obtain rfl : m = q + 1 := by omega
      have : (q + 1) % 2 ≠ 1 := fun isOdd => by
        have := (odd isOdd).1
        rw [Nat.mul_add] at this
        omega
      omega
    · obtain rfl : m = q := by omega
      have : m % 2 ≠ 1 := fun isOdd => by
        have := (odd isOdd).2
        omega
      omega

/-- A rounded quotient is one of the two whole numbers around the quotient. -/
theorem divideToEven_bounds (n d : Nat)
    : n / d ≤ divideToEven n d ∧ divideToEven n d ≤ n / d + 1 := by
  simp only [divideToEven]
  split
  · exact ⟨Nat.le_refl _, Nat.le_succ _⟩
  split
  · exact ⟨Nat.le_succ _, Nat.le_refl _⟩
  · omega

theorem divideToEven_one (n : Nat) : divideToEven n 1 = n :=
  divideToEven_eq Nat.one_pos (by omega) (by omega) fun _ => by omega

-----------------------------------------------------------------------------------------
-- Whole numbers
-----------------------------------------------------------------------------------------

theorem floorLog2_one {n : Nat} (notZero : n ≠ 0) : floorLog2 n 1 = n.log2 := by
  have reaches : reachesPower n 1 n.log2 = true := by
    simpa [reachesPower, scale] using Nat.log2_self_le notZero
  have noLog : (1 : Nat).log2 = 0 := by decide
  simp [floorLog2, noLog, reaches]

/-- The number that a whole number rounds to, by its exponent. -/
theorem ofRatio_one {n : Nat} (notZero : n ≠ 0) (negative : Bool) {a b : Nat} {exponent : Int}
    (isExponent : exponent = (n.log2 : Int) - 52) (small : n.log2 ≤ 1000)
    (scaled : scale n 1 (-exponent) = (a, b))
    : ofRatio negative n 1
      = if divideToEven a b = Nat.pow 2 53 then .finite negative (Nat.pow 2 52) (exponent + 1)
        else if divideToEven a b = 0 then zero negative
        else .finite negative (divideToEven a b) exponent := by
  have isMax : max minExponent (floorLog2 n 1 - 52) = exponent := by
    rw [floorLog2_one notZero, isExponent, minExponent]
    omega
  have notInfinite : ¬maxExponent < exponent ∧ ¬maxExponent < exponent + 1 := by
    rw [maxExponent]
    omega
  have noneZero : ¬(n = 0 ∨ (1 : Nat) = 0) := by simp [notZero]
  simp only [ofRatio, if_neg noneZero, isMax, scaled]
  split
  next isFull =>
    have notNone : Nat.pow 2 52 ≠ 0 := by decide
    simp only [if_neg notNone, if_neg notInfinite.2]
  next => simp only [if_neg notInfinite.1]

/-- Below two to the power of 53 nothing is lost. -/
theorem ofRatio_one_of_log2_le {n : Nat} (notZero : n ≠ 0) (small : n.log2 ≤ 52) (negative : Bool)
    : ofRatio negative n 1
      = .finite negative (n * Nat.pow 2 (52 - n.log2)) ((n.log2 : Int) - 52) := by
  have up : (-((n.log2 : Int) - 52)).toNat = 52 - n.log2 := by omega
  have down : (-(-((n.log2 : Int) - 52))).toNat = 0 := by omega
  have scaled : scale n 1 (-((n.log2 : Int) - 52)) = (n * Nat.pow 2 (52 - n.log2), 1) := by
    rw [scale, up, down]
  have isSmall : n * Nat.pow 2 (52 - n.log2) < Nat.pow 2 53 := by
    have := Nat.mul_lt_mul_of_pos_right (Nat.lt_log2_self (n := n))
      (Nat.pow_pos (n := 52 - n.log2) (show 0 < 2 by decide))
    rwa [← Nat.pow_add, show n.log2 + 1 + (52 - n.log2) = 53 by omega] at this
  have isPositive : n * Nat.pow 2 (52 - n.log2) ≠ 0 :=
    Nat.mul_ne_zero notZero (Nat.pow_pos (by decide)).ne'
  rw [ofRatio_one notZero negative rfl (by omega) scaled, divideToEven_one, if_neg isSmall.ne,
    if_neg isPositive]

theorem ofRatio_one_of_log2_eq {n k : Nat} (notZero : n ≠ 0) (isLog : n.log2 = 52 + k)
    (small : k ≤ 900) (negative : Bool)
    : ofRatio negative n 1
      = if divideToEven n (2 ^ k) = 2 ^ 53 then .finite negative (2 ^ 52) (k + 1)
        else if divideToEven n (2 ^ k) = 0 then zero negative
        else .finite negative (divideToEven n (2 ^ k)) k := by
  have up : (-(k : Int)).toNat = 0 := by omega
  have down : (-(-(k : Int))).toNat = k := by omega
  have scaled : scale n 1 (-(k : Int)) = (n, 2 ^ k) := by
    rw [scale, up, down]
    simp
  exact ofRatio_one notZero negative (by omega) (by omega) scaled

/-- The neighbourhood of a number that is at least two to the power of 53. -/
theorem neighbourhood_natCast (m k : Nat)
    : neighbourhood m k
      = { value := 4 * m * 2 ^ k
          below := if m = 2 ^ 52 then 2 ^ k else 2 * 2 ^ k
          above := 2 * 2 ^ k
          unit := 4
          closed := m % 2 = 0 } := by
  have up : (k : Int).toNat = k := by omega
  have down : (-(k : Int)).toNat = 0 := by omega
  have scaled : scale 1 4 k = (2 ^ k, 4) := by
    rw [scale, up, down]
    simp
  have isAbove : minExponent < k := by
    rw [minExponent]
    omega
  simp [neighbourhood, scaled, isAbove]

/-- What lies in the neighbourhood of a number is at most half its last place away, and nearer
than that if the number is odd.
-/
theorem near_of_contains {m k q : Nat} (inside : (neighbourhood m k).contains (q * 4) = true)
    : 4 * (m * 2 ^ k) ≤ 4 * q + (if m = 2 ^ 52 then 2 ^ k else 2 * 2 ^ k)
      ∧ 4 * q ≤ 4 * (m * 2 ^ k) + 2 * 2 ^ k
      ∧ (m % 2 = 1
        → 4 * (m * 2 ^ k) < 4 * q + 2 * 2 ^ k
          ∧ 4 * q < 4 * (m * 2 ^ k) + 2 * 2 ^ k) := by
  rw [neighbourhood_natCast, Neighbourhood.contains] at inside
  rw [← Nat.mul_assoc]
  generalize 2 ^ k = place at inside ⊢
  generalize 4 * m * place = value at inside ⊢
  by_cases isEven : m % 2 = 0
  · simp only [isEven, decide_true, if_true, Bool.and_eq_true, decide_eq_true_eq] at inside
    exact ⟨by omega, by omega, fun isOdd => absurd isEven (by omega)⟩
  · simp only [isEven, decide_false, Bool.false_eq_true, if_false, Bool.and_eq_true,
      decide_eq_true_eq] at inside
    obtain ⟨below, above⟩ := inside
    exact ⟨by omega, by omega, fun _ => ⟨by split at below <;> omega, by omega⟩⟩

/-- The whole numbers whose first of 53 binary digits has a place. -/
theorem log2_eq_of_bounds {q k : Nat} (atLeast : 2 ^ 52 * 2 ^ k ≤ q)
    (less : q < 2 * (2 ^ 52 * 2 ^ k))
    : q ≠ 0 ∧ q.log2 = 52 + k := by
  have isPositive : 0 < 2 ^ k := Nat.pow_pos (by decide)
  have notZero : q ≠ 0 := by omega
  refine ⟨notZero, (Nat.log2_eq_iff notZero).mpr ⟨?_, ?_⟩⟩
  · rwa [Nat.pow_add]
  · rw [Nat.pow_succ, Nat.pow_add]
    omega

/-- Below a power of two a whole number may have one place fewer. If it is no further away than the
neighbourhood allows, it is rounded up to the power.
-/
theorem ofRatio_one_of_lt_power {k q : Nat} (isWhole : 1 ≤ k) (small : k ≤ 900)
    (isLess : q < 2 ^ 52 * 2 ^ k) (below : 4 * (2 ^ 52 * 2 ^ k) ≤ 4 * q + 2 ^ k) (negative : Bool)
    : ofRatio negative q 1 = .finite negative (2 ^ 52) k := by
  obtain ⟨l, rfl⟩ : ∃ l, k = l + 1 := ⟨k - 1, by omega⟩
  have isPositive : 0 < 2 ^ l := Nat.pow_pos (by decide)
  have double : 2 ^ (l + 1) = 2 * 2 ^ l := by rw [Nat.pow_succ, Nat.mul_comm]
  rw [double] at isLess below
  obtain ⟨notZero, isLog⟩ : q ≠ 0 ∧ q.log2 = 52 + l :=
    log2_eq_of_bounds (by omega) (by omega)
  have rounds : divideToEven q (2 ^ l) = 2 ^ 53 := by
    refine divideToEven_eq isPositive ?_ ?_ fun isOdd => absurd isOdd (by decide)
    · rw [Nat.mul_comm (2 ^ l)]
      omega
    · rw [Nat.mul_comm (2 ^ l)]
      omega
  rw [ofRatio_one_of_log2_eq notZero isLog (by omega), rounds, if_pos rfl]
  rfl

/-- A whole number in the neighbourhood of a number rounds to it. -/
theorem ofRatio_one_of_contains {m k q : Nat} (isLong : 2 ^ 52 ≤ m) (isShort : m < 2 ^ 53)
    (isWhole : 1 ≤ k) (small : k ≤ 900) (inside : (neighbourhood m k).contains (q * 4) = true)
    (negative : Bool)
    : ofRatio negative q 1 = .finite negative m k := by
  obtain ⟨below, above, odd⟩ := near_of_contains inside
  have isPositive : 0 < 2 ^ k := Nat.pow_pos (by decide)
  rcases Nat.lt_or_ge q (2 ^ 52 * 2 ^ k) with isLess | isLeast
  · obtain rfl : m = 2 ^ 52 := by
      by_contra differs
      have : (2 ^ 52 + 1) * 2 ^ k ≤ m * 2 ^ k := Nat.mul_le_mul_right _ (by omega)
      rw [if_neg differs] at below
      omega
    rw [if_pos rfl] at below
    exact ofRatio_one_of_lt_power isWhole small isLess below negative
  · have greatest : m * 2 ^ k + 2 ^ k ≤ 2 ^ 53 * 2 ^ k := by
      rw [← Nat.succ_mul]
      exact Nat.mul_le_mul_right _ isShort
    obtain ⟨notZero, isLog⟩ : q ≠ 0 ∧ q.log2 = 52 + k := log2_eq_of_bounds isLeast (by omega)
    have rounds : divideToEven q (2 ^ k) = m := by
      refine divideToEven_eq isPositive ?_ ?_ fun isOdd => ?_
      · rw [Nat.mul_comm (2 ^ k)]
        split at below <;> omega
      · rw [Nat.mul_comm (2 ^ k)]
        omega
      · rw [Nat.mul_comm (2 ^ k)]
        have := odd isOdd
        omega
    rw [ofRatio_one_of_log2_eq notZero isLog small, rounds, if_neg isShort.ne,
      if_neg (by omega)]

/-- From two to the power of 53 on, a whole number of sixty-three bits is rounded to a multiple of a
power of two.
-/
theorem exists_ofRatio_one {n : Nat} (isLarge : 2 ^ 53 ≤ n) (inRange : n ≤ 2 ^ 63)
    : ∃ m k : Nat,
        (2 ^ 52 ≤ m ∧ m < 2 ^ 53)
        ∧ 1 ≤ k
        ∧ m * 2 ^ k ≤ 2 ^ 63
        ∧ ∀ negative, ofRatio negative n 1 = .finite negative m k := by
  rcases Nat.lt_or_eq_of_le inRange with isLess | rfl
  case inr => exact ⟨2 ^ 52, 11, by decide, by decide, by decide, by decide +kernel⟩
  have notZero : n ≠ 0 := by omega
  have isLeast := (Nat.le_log2 notZero).mpr isLarge
  have isGreatest := (Nat.log2_lt notZero).mpr isLess
  obtain ⟨k, isLog⟩ : ∃ k, n.log2 = 52 + k := ⟨n.log2 - 52, by omega⟩
  have power : 2 ^ (52 + k) = 2 ^ 52 * 2 ^ k := Nat.pow_add 2 52 k
  obtain ⟨atLeast, atMost⟩ := (Nat.log2_eq_iff notZero).mp isLog
  rw [Nat.pow_succ, power] at atMost
  rw [power] at atLeast
  have isPositive : 0 < 2 ^ k := Nat.pow_pos (by decide)
  have bounded : 2 ^ k ≤ 2 ^ 10 := Nat.pow_le_pow_right (by decide) (by omega)
  have lower : 2 ^ 52 ≤ n / 2 ^ k := (Nat.le_div_iff_mul_le isPositive).mpr atLeast
  have upper : n / 2 ^ k < 2 ^ 53 := (Nat.div_lt_iff_lt_mul isPositive).mpr (by omega)
  obtain ⟨isBelow, isAbove⟩ := divideToEven_bounds n (2 ^ k)
  have rounds (negative) := ofRatio_one_of_log2_eq notZero isLog (by omega) negative
  generalize divideToEven n (2 ^ k) = m at isBelow isAbove rounds
  by_cases isFull : m = 2 ^ 53
  · refine ⟨2 ^ 52, k + 1, by decide, by omega, ?_, fun negative => ?_⟩
    · rw [Nat.pow_succ]
      omega
    · rw [rounds, if_pos isFull]
      rfl
  · refine ⟨m, k, by omega, by omega, ?_, fun negative => ?_⟩
    · exact Nat.le_trans (Nat.mul_le_mul (show m ≤ 2 ^ 53 by omega) bounded) (by decide)
    · rw [rounds, if_neg isFull, if_neg (by omega)]

end SchemaDoc.Binary64
