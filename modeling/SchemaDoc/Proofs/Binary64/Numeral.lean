import SchemaDoc.Binary64.Reading
import SchemaDoc.Proofs.Lists

/-! Numerals and how much of them can be read.
A numeral may have any number of dots, but a number has one at most, so what is read of a numeral
reaches up to its second dot.
-/

namespace SchemaDoc.Binary64

-----------------------------------------------------------------------------------------
-- The longest beginning
-----------------------------------------------------------------------------------------

/-- The longest beginning of a text that can be read, with the number that it denotes. -/
structure ReadsUpTo (text front : List Char) (x : Binary64) : Prop where
  isPrefix : front <+: text
  reads : read? front = some x
  longest : ∀ longer, longer <+: text → front.length < longer.length → read? longer = none

/-- Beginnings are tried from the longest one down. -/
theorem ReadsUpTo.readLongest?_eq {text front : List Char} {x : Binary64}
    (readsUpTo : ReadsUpTo text front x)
    : readLongest? text = some x := by
  obtain ⟨isPrefix, reads, longest⟩ := readsUpTo
  have length : text.length + 1 = (front.length + 1) + (text.length - front.length) := by
    have := isPrefix.length_le
    omega
  have isFront : text.take front.length = front := (List.prefix_iff_eq_take.mp isPrefix).symm
  rw [readLongest?, List.findSome?_eq_some_iff]
  refine ⟨((List.range (text.length - front.length)).map (front.length + 1 + ·)).reverse,
    front.length, (List.range front.length).reverse, ?_, by rw [isFront, reads], ?_⟩
  · rw [length, List.range_add, List.range_succ, List.reverse_append, List.reverse_append]
    rfl
  · intro count isMember
    obtain ⟨more, isMore, rfl⟩ := List.mem_map.mp (List.mem_reverse.mp isMember)
    have := List.mem_range.mp isMore
    refine longest _ (List.take_prefix _ _) ?_
    rw [List.length_take]
    omega

-----------------------------------------------------------------------------------------
-- Digits with a dot among them
-----------------------------------------------------------------------------------------

/-- The sign of a number, or none if it is positive. -/
def signOf (negative : Bool) : List Char := if negative then ['-'] else []

/-- The decimal digits of a whole number, with its sign in front. -/
theorem toList_toString (n : Int)
    : (toString n).toList = signOf (decide (n < 0)) ++ Nat.toDigits 10 n.natAbs := by
  cases n with
  | ofNat n =>
      have notNegative : ¬Int.ofNat n < 0 := Int.not_lt.mpr (Int.natCast_nonneg n)
      rw [decide_eq_false notNegative]
      exact String.toList_ofList
  | negSucc n =>
      rw [decide_eq_true (Int.negSucc_lt_zero n)]
      change ("-" ++ String.ofList (Nat.toDigits 10 (n + 1))).toList = _
      rw [String.toList_append, String.toList_ofList, String.toList_ofList]
      rfl

/-- Digits, of which there is at least one. -/
structure AreDigits (digits : List Char) : Prop where
  all : ∀ c ∈ digits, c.isDigit = true
  notNil : digits ≠ []

instance : DecidablePred AreDigits := fun digits =>
  decidable_of_iff (digits.all Char.isDigit = true ∧ digits ≠ [])
    ⟨fun ⟨all, notNil⟩ => ⟨List.all_eq_true.mp all, notNil⟩,
      fun ⟨all, notNil⟩ => ⟨List.all_eq_true.mpr all, notNil⟩⟩

theorem toLower_of_isDigit {c : Char} (isDigit : c.isDigit = true) : c.toLower = c := by
  refine dif_neg fun isUpper => ?_
  have isLeast : 'A'.toNat ≤ c.toNat := UInt32.le_iff_toNat_le.mp isUpper.1
  have isMost := (Char.isDigit_iff_toNat.mp isDigit).2
  exact absurd (Nat.le_trans isLeast isMost) (by decide)

theorem readWord?_of_isDigit (negative : Bool) {c : Char} (isDigit : c.isDigit = true)
    (behind : List Char)
    : readWord? negative (c :: behind) = none := by
  have notLetter : c ≠ 'i' ∧ c ≠ 'n' := by
    constructor <;> rintro rfl <;> simp at isDigit
  simp [readWord?, toLower_of_isDigit isDigit, notLetter]

theorem readDigits_append {digits behind : List Char} (areDigits : ∀ c ∈ digits, c.isDigit = true)
    (ends : ∀ c ∈ behind.head?, c.isDigit = false)
    : readDigits (digits ++ behind) = (digits, behind) := by
  have taken : digits.takeWhile Char.isDigit = digits := List.takeWhile_eq_self_iff.mpr areDigits
  have front := takeWhile_append_of_fails ends digits
  have back := dropWhile_append_of_fails ends digits
  rw [taken] at front back
  rw [readDigits, front, back]

/-- A number that begins with a digit is read by its magnitude. -/
theorem read?_signOf (negative : Bool) {whole : List Char} (areDigits : AreDigits whole)
    (behind : List Char)
    : read? (signOf negative ++ (whole ++ behind)) = readMagnitude? negative (whole ++ behind) := by
  obtain ⟨all, notNil⟩ := areDigits
  obtain ⟨digit, others, rfl⟩ := List.exists_cons_of_ne_nil notNil
  have isDigit := all digit List.mem_cons_self
  have noSign : digit ≠ '-' ∧ digit ≠ '+' := by
    constructor <;> rintro rfl <;> simp at isDigit
  have sign : readSign (signOf negative ++ (digit :: others ++ behind))
      = (negative, digit :: others ++ behind) := by
    cases negative with
    | true => rfl
    | false => simp [signOf, readSign, noSign]
  rw [read?, sign]
  simp [readWord?_of_isDigit negative isDigit]

theorem read?_whole (negative : Bool) {whole : List Char} (areDigits : AreDigits whole)
    : read? (signOf negative ++ whole) = some (ofDecimal negative (valueOfDigits whole) 0) := by
  have read := read?_signOf negative areDigits []
  have split := @readDigits_append whole [] areDigits.all (by simp)
  rw [List.append_nil] at read split
  rw [read, readMagnitude?, split]
  simp [areDigits.notNil, readExponent?]

theorem read?_fraction (negative : Bool) {whole fraction : List Char}
    (areDigits : AreDigits whole) (areMore : ∀ c ∈ fraction, c.isDigit = true)
    : read? (signOf negative ++ (whole ++ '.' :: fraction))
      = some (ofDecimal negative (valueOfDigits (whole ++ fraction)) (-fraction.length)) := by
  have split := @readDigits_append whole ('.' :: fraction) areDigits.all (by simp)
  have more := @readDigits_append fraction [] areMore (by simp)
  rw [List.append_nil] at more
  rw [read?_signOf negative areDigits, readMagnitude?, split]
  simp [areDigits.notNil, more, readExponent?]

/-- A second dot makes a text unreadable. -/
theorem read?_second_dot (negative : Bool) {whole fraction : List Char}
    (areDigits : AreDigits whole) (areMore : ∀ c ∈ fraction, c.isDigit = true)
    (behind : List Char)
    : read? (signOf negative ++ (whole ++ '.' :: (fraction ++ '.' :: behind))) = none := by
  have split := @readDigits_append whole ('.' :: (fraction ++ '.' :: behind)) areDigits.all
    (by simp)
  have more := @readDigits_append fraction ('.' :: behind) areMore (by simp)
  rw [read?_signOf negative areDigits, readMagnitude?, split]
  simp [areDigits.notNil, more, readExponent?]

-----------------------------------------------------------------------------------------
-- Numerals
-----------------------------------------------------------------------------------------

/-- A numeral: perhaps a minus sign, then a digit, then digits and dots. -/
inductive IsNumeral : List Char → Prop
  | mk {sign digit behind} (isSign : sign = [] ∨ sign = ['-']) (isDigit : digit.isDigit = true)
    (areParts : ∀ c ∈ behind, c.isDigit = true ∨ c = '.')
    : IsNumeral (sign ++ digit :: behind)

/-- A text up to its second dot, or all of it if there is none. -/
def beforeSecondDot (text : List Char) : List Char :=
  text.takeWhile (· ≠ '.')
    ++ match text.dropWhile (· ≠ '.') with
      | [] => []
      | dot :: behind => dot :: behind.takeWhile (· ≠ '.')

/-- Digits and dots are digits up to the first dot. -/
theorem exists_digits {text : List Char} (areParts : ∀ c ∈ text, c.isDigit = true ∨ c = '.')
    : ∃ digits behind,
        text = digits ++ behind
        ∧ (∀ c ∈ digits, c.isDigit = true)
        ∧ (behind = [] ∨ ∃ rest, behind = '.' :: rest) := by
  induction text with
  | nil => exact ⟨[], [], rfl, by simp, .inl rfl⟩
  | cons c text ih =>
      obtain ⟨isPart, areParts⟩ := List.forall_mem_cons.mp areParts
      rcases isPart with isDigit | rfl
      · obtain ⟨digits, behind, rfl, areDigits, ends⟩ := ih areParts
        exact ⟨c :: digits, behind, rfl, List.forall_mem_cons.mpr ⟨isDigit, areDigits⟩, ends⟩
      · exact ⟨[], '.' :: text, rfl, by simp, .inr ⟨text, rfl⟩⟩

theorem ne_dot_of_isDigit {c : Char} (isDigit : c.isDigit = true) : c ≠ '.' := by
  rintro rfl
  simp at isDigit

/-- Where a numeral is cut: behind its first digits, and in front of its second dot. -/
inductive Cut : List Char → Prop
  | whole (negative : Bool) {whole} (areDigits : AreDigits whole) : Cut (signOf negative ++ whole)
  | fraction (negative : Bool) {whole fraction} (areDigits : AreDigits whole)
    (areMore : ∀ c ∈ fraction, c.isDigit = true)
    : Cut (signOf negative ++ (whole ++ '.' :: fraction))
  | beyond (negative : Bool) {whole fraction behind} (areDigits : AreDigits whole)
    (areMore : ∀ c ∈ fraction, c.isDigit = true)
    : Cut (signOf negative ++ (whole ++ '.' :: (fraction ++ '.' :: behind)))

theorem IsNumeral.cut {text : List Char} (isNumeral : IsNumeral text) : Cut text := by
  obtain @⟨sign, digit, behind, isSign, isDigit, areParts⟩ := isNumeral
  obtain ⟨negative, rfl⟩ : ∃ negative, sign = signOf negative := by
    rcases isSign with rfl | rfl
    · exact ⟨false, rfl⟩
    · exact ⟨true, rfl⟩
  obtain ⟨digits, rest, rfl, areDigits, ends⟩ := exists_digits areParts
  have areWhole : AreDigits (digit :: digits) :=
    ⟨List.forall_mem_cons.mpr ⟨isDigit, areDigits⟩, by simp⟩
  rw [← List.cons_append]
  rcases ends with rfl | ⟨rest, rfl⟩
  · rw [List.append_nil]
    exact .whole negative areWhole
  · have areBehind : ∀ c ∈ rest, c.isDigit = true ∨ c = '.' := fun c isMember =>
      areParts c (by simp [isMember])
    obtain ⟨fraction, rest, rfl, areMore, ends⟩ := exists_digits areBehind
    rcases ends with rfl | ⟨rest, rfl⟩
    · rw [List.append_nil]
      exact .fraction negative areWhole areMore
    · exact .beyond negative areWhole areMore

theorem forall_ne_dot {text : List Char} (noDot : '.' ∉ text)
    : ∀ c ∈ text, decide (c ≠ '.') = true :=
  fun _ isMember => decide_eq_true fun isDot => noDot (isDot ▸ isMember)

theorem takeWhile_ne_dot {front : List Char} (noDot : '.' ∉ front) (behind : List Char)
    : (front ++ '.' :: behind).takeWhile (· ≠ '.') = front
      ∧ (front ++ '.' :: behind).dropWhile (· ≠ '.') = '.' :: behind := by
  rw [List.takeWhile_append_of_pos (forall_ne_dot noDot),
    List.dropWhile_append_of_pos (forall_ne_dot noDot)]
  simp

theorem beforeSecondDot_of_noDot {front : List Char} (noDot : '.' ∉ front)
    : beforeSecondDot front = front := by
  rw [beforeSecondDot, List.takeWhile_eq_self_iff.mpr (forall_ne_dot noDot),
    List.dropWhile_eq_nil_iff.mpr (forall_ne_dot noDot), List.append_nil]

theorem beforeSecondDot_of_dot {front middle : List Char} (noDot : '.' ∉ front)
    (noMore : '.' ∉ middle)
    : beforeSecondDot (front ++ '.' :: middle) = front ++ '.' :: middle := by
  obtain ⟨taken, dropped⟩ := takeWhile_ne_dot noDot middle
  simp only [beforeSecondDot, taken, dropped,
    List.takeWhile_eq_self_iff.mpr (forall_ne_dot noMore)]

theorem beforeSecondDot_of_dots {front middle : List Char} (noDot : '.' ∉ front)
    (noMore : '.' ∉ middle) (behind : List Char)
    : beforeSecondDot (front ++ '.' :: (middle ++ '.' :: behind)) = front ++ '.' :: middle := by
  obtain ⟨taken, dropped⟩ := takeWhile_ne_dot noDot (middle ++ '.' :: behind)
  simp only [beforeSecondDot, taken, dropped, (takeWhile_ne_dot noMore behind).1]

theorem noDot_signOf_append (negative : Bool) {whole : List Char} (areDigits : AreDigits whole)
    : '.' ∉ signOf negative ++ whole := by
  intro isMember
  rcases List.mem_append.mp isMember with isSign | isDigit
  · cases negative <;> simp [signOf] at isSign
  · exact ne_dot_of_isDigit (areDigits.all _ isDigit) rfl

/-- A whole text that can be read is what is read of it. -/
theorem readsUpTo_self {text : List Char} {x : Binary64} (reads : read? text = some x)
    : ReadsUpTo text text x :=
  ⟨List.prefix_refl text, reads, fun _ isPrefix isLonger =>
    absurd isLonger (Nat.not_lt.mpr isPrefix.length_le)⟩

/-- A numeral is read up to its second dot. -/
theorem IsNumeral.readsUpTo {text : List Char} (isNumeral : IsNumeral text)
    : ∃ x, ReadsUpTo text (beforeSecondDot text) x := by
  cases isNumeral.cut with
  | whole negative areDigits =>
      rw [beforeSecondDot_of_noDot (noDot_signOf_append negative areDigits)]
      exact ⟨_, readsUpTo_self (read?_whole negative areDigits)⟩
  | @fraction negative whole fraction areDigits areMore =>
      have noMore : '.' ∉ fraction := fun isMember => ne_dot_of_isDigit (areMore _ isMember) rfl
      rw [← List.append_assoc,
        beforeSecondDot_of_dot (noDot_signOf_append negative areDigits) noMore, List.append_assoc]
      exact ⟨_, readsUpTo_self (read?_fraction negative areDigits areMore)⟩
  | @beyond negative whole fraction behind areDigits areMore =>
      have noMore : '.' ∉ fraction := fun isMember => ne_dot_of_isDigit (areMore _ isMember) rfl
      rw [← List.append_assoc,
        beforeSecondDot_of_dots (noDot_signOf_append negative areDigits) noMore behind,
        List.append_assoc, List.append_assoc]
      refine ⟨_, ⟨'.' :: behind, by simp⟩, read?_fraction negative areDigits areMore, ?_⟩
      intro longer isPrefix isLonger
      have dotted : (signOf negative ++ (whole ++ '.' :: fraction)) ++ ['.']
          <+: signOf negative ++ (whole ++ '.' :: (fraction ++ '.' :: behind)) :=
        ⟨behind, by simp⟩
      obtain ⟨more, rfl⟩ := List.prefix_of_prefix_length_le dotted isPrefix (by
        rw [List.length_append, List.length_singleton]
        exact isLonger)
      simpa using read?_second_dot negative areDigits areMore more

end SchemaDoc.Binary64
