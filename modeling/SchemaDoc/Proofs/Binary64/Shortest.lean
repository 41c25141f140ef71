import SchemaDoc.Proofs.Binary64.Numeral
import SchemaDoc.Proofs.Binary64.Rounding

/-! The digits of whole numbers.
What is shown of a whole number is a whole number in its neighbourhood, so it reads back as the same
number, and below two to the power of 53 it is the number itself.
-/

namespace SchemaDoc.Binary64

-----------------------------------------------------------------------------------------
-- Digits
-----------------------------------------------------------------------------------------

/-- A power of ten puts zeros behind the digits. -/
theorem toDigits_mul_pow {w : Nat} (isPositive : 0 < w) (j : Nat)
    : Nat.toDigits 10 (w * 10 ^ j) = Nat.toDigits 10 w ++ List.replicate j '0' := by
  induction j with
  | zero => simp
  | succ j ih =>
      have positive : 0 < w * 10 ^ j := Nat.mul_pos isPositive (Nat.pow_pos (by decide))
      have behind :=
        Nat.toDigits_append_toDigits (b := 10) (d := 0) (by decide) positive (by decide)
      have number : w * 10 ^ (j + 1) = 10 * (w * 10 ^ j) + 0 := by
        rw [Nat.pow_succ]
        ring
      have zero : Nat.toDigits 10 0 = ['0'] := by decide
      rw [number, ← behind, ih, zero, List.append_assoc, List.replicate_succ']

/-- Trailing zeros are left out of the digits and filled in again. -/
theorem positional_eq {w : Nat} (isPositive : 0 < w) (j : Nat)
    : (⟨((Nat.toDigits 10 w).reverse.dropWhile (· = '0')).reverse,
          j + (Nat.toDigits 10 w).length⟩ : Decimal).positional
      = Nat.toDigits 10 (w * 10 ^ j) := by
  rw [toDigits_mul_pow isPositive]
  have notNone : 0 < (Nat.toDigits 10 w).length := Nat.length_toDigits_pos
  generalize Nat.toDigits 10 w = digits at notNone ⊢
  obtain ⟨zeros, split⟩ : ∃ zeros,
      digits = (digits.reverse.dropWhile (· = '0')).reverse ++ List.replicate zeros '0' := by
    refine ⟨(digits.reverse.takeWhile (· = '0')).length, ?_⟩
    have all : ∀ c ∈ (digits.reverse.takeWhile (· = '0')).reverse, c = '0' := fun c isMember => by
      simpa using List.mem_takeWhile_imp (List.mem_reverse.mp isMember)
    have areZeros := List.eq_replicate_of_mem all
    rw [List.length_reverse] at areZeros
    rw [← areZeros, ← List.reverse_append, List.takeWhile_append_dropWhile, List.reverse_reverse]
  generalize (digits.reverse.dropWhile (· = '0')).reverse = kept at split
  have length := congrArg List.length split
  rw [List.length_append, List.length_replicate] at length
  have isInFront : ¬((j : Int) + digits.length ≤ 0) := by omega
  have point : ((j : Int) + digits.length).toNat = j + digits.length := by omega
  have isWhole : kept.length ≤ j + digits.length := by omega
  have filled : j + digits.length - kept.length = zeros + j := by omega
  simp only [Decimal.positional, if_neg isInFront, point, if_pos isWhole, filled]
  rw [List.replicate_add, ← List.append_assoc, ← split]

-----------------------------------------------------------------------------------------
-- Decimals in a neighbourhood
-----------------------------------------------------------------------------------------

/-- The number of digits says between which powers of ten a number is. -/
theorem toDigits_length_bounds {n : Nat} (notZero : n ≠ 0)
    : ∃ k, (Nat.toDigits 10 n).length = k + 1 ∧ 10 ^ k ≤ n ∧ n < 10 ^ (k + 1) := by
  have le_iff {k : Nat} : (Nat.toDigits 10 n).length ≤ k + 1 ↔ n < 10 ^ (k + 1) :=
    Nat.length_toDigits_le_iff (by decide) (Nat.succ_pos k)
  obtain ⟨k, length⟩ : ∃ k, (Nat.toDigits 10 n).length = k + 1 :=
    ⟨_, (Nat.succ_pred_eq_of_pos Nat.length_toDigits_pos).symm⟩
  refine ⟨k, length, ?_, le_iff.mp length.le⟩
  cases k with
  | zero => exact Nat.one_le_iff_ne_zero.mpr notZero
  | succ k =>
      by_contra isLess
      have := le_iff.mpr (Nat.lt_of_not_le isLess)
      omega

theorem pow_ten_lt_of_lt {j k n m : Nat} (isLeast : 10 ^ j ≤ n) (le : n ≤ m) (isLess : m < 10 ^ k)
    : j < k :=
  (Nat.pow_lt_pow_iff_right (by decide)).mp (Nat.lt_of_le_of_lt (Nat.le_trans isLeast le) isLess)

/-- The number of digits of a quotient that is one or more is where its point stands. -/
theorem decimalPoint_eq {value unit e : Nat} (isPositive : 0 < unit)
    (isLeast : 10 ^ e * unit ≤ value) (isLess : value < 10 ^ (e + 1) * unit)
    : decimalPoint value unit = e + 1 := by
  have notZero : value ≠ 0 := by
    have := Nat.mul_pos (Nat.pow_pos (n := e) (show 0 < 10 by decide)) isPositive
    omega
  obtain ⟨a, lengthA, leastA, lessA⟩ := toDigits_length_bounds notZero
  obtain ⟨b, lengthB, leastB, lessB⟩ := toDigits_length_bounds isPositive.ne'
  have lower : e + b < a + 1 :=
    pow_ten_lt_of_lt (Nat.pow_add 10 e b ▸ Nat.mul_le_mul_left _ leastB) isLeast lessA
  have upper : a < e + 1 + (b + 1) := by
    refine pow_ten_lt_of_lt leastA isLess.le ?_
    rw [Nat.pow_add 10 (e + 1)]
    exact Nat.mul_lt_mul_of_pos_left lessB (Nat.pow_pos (by decide))
  have guess : ((a + 1 : Nat) : Int) - ((b + 1 : Nat) : Int) = ((a - b : Nat) : Int) := by omega
  have up : (((a - b : Nat) : Int)).toNat = a - b := by omega
  have down : (-((a - b : Nat) : Int)).toNat = 0 := by omega
  simp only [decimalPoint, lengthA, lengthB, guess, up, down, Nat.pow_eq, Nat.pow_zero, Nat.mul_one]
  rcases Nat.lt_or_ge (a - b) (e + 1) with isSmall | isLarge
  · have same : a - b = e := by omega
    rw [same, Nat.mul_comm unit, if_pos isLeast]
  · have same : a - b = e + 1 := by omega
    rw [same, Nat.mul_comm unit, if_neg (Nat.not_le.mpr isLess)]
    rfl

section Whole

variable {n : Neighbourhood} {v d j : Nat}

/-- A neighbourhood of a whole number. Both of its sides have a length, and zero is outside. -/
structure Neighbourhood.IsWhole (n : Neighbourhood) (v : Nat) : Prop where
  unit_pos : 0 < n.unit
  value_eq : n.value = v * n.unit
  below_pos : 0 < n.below
  above_pos : 0 < n.above
  below_lt : n.below < n.value

theorem contains_of_lt {p : Nat} (below : n.value < p + n.below) (above : p < n.value + n.above)
    : n.contains p = true := by
  rw [Neighbourhood.contains]
  split <;> simp only [Bool.and_eq_true, decide_eq_true_eq] <;> omega

theorem bounds_of_contains {p : Nat} (inside : n.contains p = true)
    : n.value ≤ p + n.below ∧ p ≤ n.value + n.above := by
  rw [Neighbourhood.contains] at inside
  split at inside <;> simp only [Bool.and_eq_true, decide_eq_true_eq] at inside <;> omega

/-- In a neighbourhood that is narrower than one is long, there is no other whole number. -/
theorem eq_of_contains {q : Nat} (isWhole : n.IsWhole v) (below : n.below < n.unit)
    (above : n.above < n.unit) (inside : n.contains (q * n.unit) = true)
    : q = v := by
  have bounds := bounds_of_contains inside
  rw [isWhole.value_eq] at bounds
  generalize n.unit = unit at below above bounds
  rcases Nat.lt_trichotomy q v with isLess | rfl | isMore
  · have := Nat.mul_le_mul_right unit (show q + 1 ≤ v from isLess)
    rw [Nat.succ_mul] at this
    omega
  · rfl
  · have := Nat.mul_le_mul_right unit (show v + 1 ≤ q from isMore)
    rw [Nat.succ_mul] at this
    omega

/-- Where fewer digits are tried, the grid gets wider, and the neighbourhood stays. -/
theorem scaled_neg (n : Neighbourhood) (j : Nat)
    : n.scaled (-j) = { n with unit := n.unit * 10 ^ j } := by
  have up : (-(j : Int)).toNat = 0 := by omega
  simp [Neighbourhood.scaled, up]

theorem wholePoint?_scaled (isWhole : n.IsWhole v)
    : (n.scaled (-j)).wholePoint?
      = let low := v / 10 ^ j
        let inside (w : Nat) := n.contains (w * 10 ^ j * n.unit)
        if inside low && inside (low + 1) then
          some (if n.unit * 10 ^ j ≤ 2 * (n.value % (n.unit * 10 ^ j)) then low + 1 else low)
        else if inside low then some low
        else if inside (low + 1) then some (low + 1)
        else none := by
  have low : n.value / (n.unit * 10 ^ j) = v / 10 ^ j := by
    rw [isWhole.value_eq, Nat.mul_comm n.unit, Nat.mul_div_mul_right _ _ isWhole.unit_pos]
  have grid (w : Nat) : w * (n.unit * 10 ^ j) = w * 10 ^ j * n.unit := by
    rw [Nat.mul_comm n.unit, Nat.mul_assoc]
  have same (p : Nat)
      : Neighbourhood.contains { n with unit := n.unit * 10 ^ j } p = n.contains p :=
    rfl
  rw [scaled_neg, Neighbourhood.wholePoint?]
  simp only [low, grid, same]

/-- The whole number that is taken on a grid lies in the neighbourhood. -/
theorem contains_of_wholePoint? {w : Nat} (isWhole : n.IsWhole v)
    (found : (n.scaled (-j)).wholePoint? = some w)
    : n.contains (w * 10 ^ j * n.unit) = true := by
  rw [wholePoint?_scaled isWhole] at found
  grind

/-- On a grid that has a point in the neighbourhood next to the number, some is taken. -/
theorem exists_wholePoint? (isWhole : n.IsWhole v)
    (inside : n.contains (v / 10 ^ j * 10 ^ j * n.unit) = true
      ∨ n.contains ((v / 10 ^ j + 1) * 10 ^ j * n.unit) = true)
    : ∃ w, (n.scaled (-j)).wholePoint? = some w := by
  rw [wholePoint?_scaled isWhole]
  cases low : n.contains (v / 10 ^ j * 10 ^ j * n.unit) <;>
    cases high : n.contains ((v / 10 ^ j + 1) * 10 ^ j * n.unit) <;> simp_all

/-- If some count of digits will do that is not beyond the point, the least one of these is found.
-/
theorem shortestFrom_eq (isWhole : n.IsWhole v) (count fuel : Nat) {last : Nat}
    (isAhead : count ≤ last) (isBefore : last ≤ d) (isInside : last < count + fuel)
    (found : ∃ w, (n.scaled (-((d - last : Nat) : Int))).wholePoint? = some w)
    : ∃ w j : Nat,
        shortestFrom n d count fuel = (w, (j : Int))
        ∧ n.contains (w * 10 ^ j * n.unit) = true := by
  induction fuel generalizing count with
  | zero => omega
  | succ fuel ih =>
      have exponent : (count : Int) - d = -((d - count : Nat) : Int) := by omega
      rw [shortestFrom, exponent]
      cases here : (n.scaled (-((d - count : Nat) : Int))).wholePoint? with
      | some w =>
          exact ⟨w, d - count, by simp only [Prod.mk.injEq, true_and]; omega,
            contains_of_wholePoint? isWhole here⟩
      | none =>
          have notLast : count ≠ last := by
            rintro rfl
            obtain ⟨w, isFound⟩ := found
            exact absurd (here.symm.trans isFound) (by simp)
          exact ih (count + 1) (by omega) (by omega)

/-- The digits that are shown are those of a whole number in the neighbourhood, if some count of
digits will do that is tried and not beyond the point.
-/
theorem exists_positional {m : Nat} {e : Int} (isWhole : (neighbourhood m e).IsWhole v)
    (last : Nat) (isLeast : 10 ^ d ≤ v) (isLess : v < 10 ^ (d + 1)) (isAhead : 1 ≤ last)
    (isTried : last ≤ 17) (isBefore : last ≤ d + 1)
    (found : ∃ w, ((neighbourhood m e).scaled (-((d + 1 - last : Nat) : Int))).wholePoint? = some w)
    : ∃ q,
        0 < q
        ∧ (shortest m e).positional = Nat.toDigits 10 q
        ∧ (neighbourhood m e).contains (q * (neighbourhood m e).unit) = true := by
  have point : decimalPoint (neighbourhood m e).value (neighbourhood m e).unit
      = ((d + 1 : Nat) : Int) := by
    rw [isWhole.value_eq]
    exact decimalPoint_eq isWhole.unit_pos (Nat.mul_le_mul_right _ isLeast)
      (Nat.mul_lt_mul_of_pos_right isLess isWhole.unit_pos)
  obtain ⟨w, j, run, inside⟩ := shortestFrom_eq isWhole 1 17 isAhead isBefore
    (by omega) found
  have isPositive : 0 < w := by
    by_contra isZero
    obtain rfl : w = 0 := by omega
    have := (bounds_of_contains inside).1
    have := isWhole.below_lt
    omega
  refine ⟨w * 10 ^ j, Nat.mul_pos isPositive (Nat.pow_pos (by decide)), ?_, inside⟩
  rw [← positional_eq isPositive]
  simp only [shortest, point, run]

end Whole

-----------------------------------------------------------------------------------------
-- Whole numbers of up to sixty-three bits
-----------------------------------------------------------------------------------------

/-- As many digits as the number has will do. -/
theorem exists_wholePoint?_zero {n : Neighbourhood} {v : Nat} (isWhole : n.IsWhole v)
    : ∃ w, (n.scaled (-((0 : Nat) : Int))).wholePoint? = some w := by
  refine exists_wholePoint? isWhole (.inl ?_)
  rw [Nat.pow_zero, Nat.div_one, Nat.mul_one, ← isWhole.value_eq]
  exact contains_of_lt (Nat.lt_add_of_pos_right isWhole.below_pos)
    (Nat.lt_add_of_pos_right isWhole.above_pos)

/-- The neighbourhood of a whole number that is held exactly, with some places to spare. -/
theorem neighbourhood_neg (m k : Nat)
    : neighbourhood m (-(k : Int))
      = { value := 4 * m
          below := if m = 2 ^ 52 ∧ minExponent < -(k : Int) then 1 else 2
          above := 2
          unit := 4 * 2 ^ k
          closed := m % 2 = 0 } := by
  have up : (-(k : Int)).toNat = 0 := by omega
  have down : (-(-(k : Int))).toNat = k := by omega
  have scaled : scale 1 4 (-(k : Int)) = (1, 4 * 2 ^ k) := by
    rw [scale, up, down]
    rfl
  simp [neighbourhood, scaled]

/-- A number that is held exactly is shown with its own digits. -/
theorem positional_of_lt {n : Nat} (notZero : n ≠ 0) (isSmall : n < 2 ^ 53)
    : (shortest (n * 2 ^ (52 - n.log2)) ((n.log2 : Int) - 52)).positional = Nat.toDigits 10 n := by
  have isLog := (Nat.log2_lt notZero).mpr isSmall
  have exponent : (n.log2 : Int) - 52 = -((52 - n.log2 : Nat) : Int) := by omega
  rw [exponent]
  generalize 52 - n.log2 = k
  have isPositive : 0 < 2 ^ k := Nat.pow_pos (by decide)
  have isWhole : (neighbourhood (n * 2 ^ k) (-(k : Int))).IsWhole n := by
    have isLarge : 4 ≤ 4 * (n * 2 ^ k) := by
      have := Nat.mul_pos (Nat.pos_of_ne_zero notZero) isPositive
      omega
    rw [neighbourhood_neg]
    refine ⟨by dsimp only; omega, Nat.mul_left_comm _ _ _, ?_, Nat.succ_pos 1, ?_⟩ <;>
      dsimp only <;> split <;> omega
  obtain ⟨d, -, isLeast, isLess⟩ := toDigits_length_bounds notZero
  have isShort : d < 16 := pow_ten_lt_of_lt isLeast (Nat.le_refl n) (by omega)
  have found := exists_wholePoint?_zero isWhole
  obtain ⟨q, -, shown, inside⟩ := exists_positional isWhole (d + 1) isLeast isLess
    (by omega) (by omega) (by omega) (by rwa [Nat.sub_self])
  have narrow : (neighbourhood (n * 2 ^ k) (-(k : Int))).below
        < (neighbourhood (n * 2 ^ k) (-(k : Int))).unit
      ∧ (neighbourhood (n * 2 ^ k) (-(k : Int))).above
        < (neighbourhood (n * 2 ^ k) (-(k : Int))).unit := by
    rw [neighbourhood_neg]
    dsimp only
    split <;> omega
  rw [shown, eq_of_contains isWhole narrow.1 narrow.2 inside]

/-- On a grid that is finer than the last place of a number there is a point next to it. -/
theorem exists_wholePoint?_of_fine {m k j : Nat} (isWhole : (neighbourhood m k).IsWhole (m * 2 ^ k))
    (fine : 10 ^ j < 2 ^ k) (notPower : m = 2 ^ 52 → 2 * 10 ^ j < 2 ^ k)
    : ∃ w, ((neighbourhood m k).scaled (-(j : Int))).wholePoint? = some w := by
  have split := Nat.div_add_mod (m * 2 ^ k) (10 ^ j)
  have small := Nat.mod_lt (m * 2 ^ k) (Nat.pow_pos (n := j) (show 0 < 10 by decide))
  refine exists_wholePoint? isWhole ?_
  rw [Nat.succ_mul, Nat.mul_comm _ (10 ^ j), neighbourhood_natCast]
  -- the grid points around the number are nearer to each other than its neighbourhood is wide
  rcases Nat.lt_or_ge (4 * (m * 2 ^ k % 10 ^ j)) (if m = 2 ^ 52 then 2 ^ k else 2 * 2 ^ k) with
    isNear | isFar
  · refine .inl (contains_of_lt ?_ ?_) <;> dsimp only <;> rw [Nat.mul_assoc 4 m] <;> omega
  · refine .inr (contains_of_lt ?_ ?_) <;> dsimp only <;> rw [Nat.mul_assoc 4 m] <;>
      split at isFar <;> omega

/-- A number that is rounded is shown with the digits of one that is rounded to the same. Seventeen
digits will do: the grid is then finer than the last place of the number.
-/
theorem exists_positional_of_rounded {m k : Nat} (isLong : 2 ^ 52 ≤ m) (isShort : m < 2 ^ 53)
    (inRange : m * 2 ^ k ≤ 2 ^ 63)
    : ∃ q,
        0 < q
        ∧ (shortest m k).positional = Nat.toDigits 10 q
        ∧ (neighbourhood m k).contains (q * 4) = true := by
  have isPositive : 0 < 2 ^ k := Nat.pow_pos (by decide)
  have least : 2 ^ 52 * 2 ^ k ≤ m * 2 ^ k := Nat.mul_le_mul_right _ isLong
  have less : m * 2 ^ k < 2 ^ 53 * 2 ^ k := Nat.mul_lt_mul_of_pos_right isShort isPositive
  have isWhole : (neighbourhood m k).IsWhole (m * 2 ^ k) := by
    rw [neighbourhood_natCast]
    refine ⟨Nat.succ_pos 3, by rw [Nat.mul_assoc, Nat.mul_comm], ?_, ?_, ?_⟩ <;> dsimp only
    · split <;> omega
    · omega
    · rw [Nat.mul_assoc]
      split <;> omega
  have unit : (neighbourhood m k).unit = 4 := by rw [neighbourhood_natCast]
  rw [← unit]
  obtain ⟨d, -, atLeast, atMost⟩ := toDigits_length_bounds (show m * 2 ^ k ≠ 0 by omega)
  have isShort : d < 19 := pow_ten_lt_of_lt atLeast inRange (by decide)
  rcases Nat.lt_or_ge d 17 with isFew | isMany
  · exact exists_positional isWhole (d + 1) atLeast atMost (by omega) (by omega) (by omega)
      (by
        rw [Nat.sub_self]
        exact exists_wholePoint?_zero isWhole)
  · refine exists_positional isWhole 17 atLeast atMost (by omega) (by omega) (by omega)
      (exists_wholePoint?_of_fine isWhole ?_ ?_)
    · obtain rfl | rfl : d = 17 ∨ d = 18 := by omega
      · omega
      · omega
    · rintro rfl
      obtain rfl | rfl : d = 17 ∨ d = 18 := by omega
      · omega
      · omega

/-- A whole number of up to sixty-three bits is shown with the digits of a whole number that is held
as the same number, and below two to the power of 53 with its own.
-/
theorem exists_shown {n : Nat} (notZero : n ≠ 0) (inRange : n ≤ 2 ^ 63)
    : ∃ q,
        0 < q
        ∧ (n ≤ 2 ^ 53 → q = n)
        ∧ ∀ negative,
            ofRatio negative q 1 = ofRatio negative n 1
            ∧ (ofRatio negative n 1).isZero = false
            ∧ (ofRatio negative n 1).toPlain
              = String.ofList (signOf negative ++ Nat.toDigits 10 q) := by
  have shows {negative : Bool} {m : Nat} {e : Int} {q : Nat} (notNone : m ≠ 0)
      (shown : (shortest m e).positional = Nat.toDigits 10 q)
      : (finite negative m e).isZero = false
        ∧ (finite negative m e).toPlain = String.ofList (signOf negative ++ Nat.toDigits 10 q) := by
    refine ⟨by simpa [isZero] using notNone, ?_⟩
    rw [toPlain, if_neg notNone, shown]
    cases negative <;> rfl
  rcases Nat.lt_trichotomy n (2 ^ 53) with isSmall | rfl | isLarge
  · have isLog := (Nat.log2_lt notZero).mpr isSmall
    refine ⟨n, Nat.pos_of_ne_zero notZero, fun _ => rfl, fun negative => ⟨rfl, ?_⟩⟩
    rw [ofRatio_one_of_log2_le notZero (by omega)]
    exact shows (Nat.mul_ne_zero notZero (Nat.pow_pos (by decide)).ne')
      (positional_of_lt notZero isSmall)
  · exact ⟨2 ^ 53, by decide, fun _ => rfl, fun negative => ⟨rfl, by
      cases negative <;> decide +kernel⟩⟩
  · obtain ⟨m, k, ⟨isLong, isShort⟩, isWhole, bounded, rounds⟩ :=
      exists_ofRatio_one (Nat.le_of_lt isLarge) inRange
    have bounded' : k ≤ 11 := by
      by_contra isMore
      have := Nat.mul_le_mul isLong (Nat.pow_le_pow_right (show 0 < 2 by decide)
        (show 12 ≤ k by omega))
      omega
    obtain ⟨q, isPositive, shown, inside⟩ := exists_positional_of_rounded isLong isShort bounded
    refine ⟨q, isPositive, fun isSmall => by omega, fun negative => ⟨?_, ?_⟩⟩
    · rw [rounds, ofRatio_one_of_contains isLong isShort isWhole (by omega) inside]
    · rw [rounds]
      exact shows (by omega) shown

end SchemaDoc.Binary64
