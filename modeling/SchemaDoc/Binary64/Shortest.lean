import SchemaDoc.Binary64.Basic

/-! The fewest decimal digits that read back as the same number, and two ways to lay them out.
Among digit strings of the least length the one nearest to the number is taken, and a tie is
settled upward.
-/

namespace SchemaDoc.Binary64

/-- The decimal digits of a positive number: the value is `0.digits` times ten to `point`,
where `digits` neither starts nor ends with a zero.
-/
structure Decimal where
  digits : List Char
  point : Int
  deriving DecidableEq, Repr, Inhabited

/-- The exact value `n / d` together with half the distances to its two neighbours over the
same denominator; the ends count as inside when the significand is even.
-/
structure Neighbourhood where
  value : Nat
  below : Nat
  above : Nat
  unit : Nat
  closed : Bool
  deriving Repr

/-- The reals that round to a finite number. Below a power of two the distance to the next
number is half as long, except at the least exponent.
-/
def neighbourhood (m : Nat) (e : Int) : Neighbourhood :=
  let (a, b) := scale 1 4 e
  let below := if m = Nat.pow 2 52 ∧ minExponent < e then a else 2 * a
  ⟨4 * m * a, below, 2 * a, b, m % 2 = 0⟩

/-- Whether the point `p / unit`, given by its numerator, rounds to the number. -/
def Neighbourhood.contains (n : Neighbourhood) (p : Nat) : Bool :=
  if n.closed then n.value ≤ p + n.below && p ≤ n.value + n.above
  else n.value < p + n.below && p < n.value + n.above

/-- The numerator and denominator of a neighbourhood, scaled by ten to the exponent. -/
def Neighbourhood.scaled (n : Neighbourhood) (exponent : Int) : Neighbourhood :=
  let up := Nat.pow 10 exponent.toNat
  { n with
    value := n.value * up
    below := n.below * up
    above := n.above * up
    unit := n.unit * Nat.pow 10 (-exponent).toNat }

/-- The nearest whole number that rounds to the number, on the grid of whole numbers. Of the
two neighbours on the grid the nearer one is taken, and the upper one in a tie.
-/
def Neighbourhood.wholePoint? (n : Neighbourhood) : Option Nat :=
  let low := n.value / n.unit
  let rest := n.value % n.unit
  let lowInside := n.contains (low * n.unit)
  let highInside := n.contains ((low + 1) * n.unit)
  if lowInside && highInside then some (if n.unit ≤ 2 * rest then low + 1 else low)
  else if lowInside then some low
  else if highInside then some (low + 1)
  else none

/-- The number of decimal digits in front of the point of `n / d`, so that the value is below
ten to it and at least a tenth of that.
-/
def decimalPoint (n d : Nat) : Int :=
  let guess := ((Nat.toDigits 10 n).length : Int) - (Nat.toDigits 10 d).length
  if d * Nat.pow 10 guess.toNat ≤ n * Nat.pow 10 (-guess).toNat then guess + 1 else guess

/-- The least count of digits, starting from `count`, for which some decimal rounds to the
number, with that decimal as a whole number. Seventeen digits always suffice.
-/
def shortestFrom (n : Neighbourhood) (point : Int) (count : Nat) : Nat → Nat × Int
  | 0 => (0, point - count)
  | fuel + 1 =>
      match (n.scaled (count - point)).wholePoint? with
      | some whole => (whole, point - count)
      | none => shortestFrom n point (count + 1) fuel

/-- The digits of a positive number `m · 2 ^ e`, the fewest that read back as it. -/
def shortest (m : Nat) (e : Int) : Decimal :=
  let n := neighbourhood m e
  let (whole, exponent) := shortestFrom n (decimalPoint n.value n.unit) 1 17
  let digits := Nat.toDigits 10 whole
  let kept := (digits.reverse.dropWhile (· = '0')).reverse
  ⟨kept, exponent + digits.length⟩

/-- Digits laid out without an exponent: zeros fill the places up to the point. -/
def Decimal.positional (d : Decimal) : List Char :=
  if d.point ≤ 0 then ['0', '.'] ++ List.replicate (-d.point).toNat '0' ++ d.digits
  else if d.digits.length ≤ d.point.toNat then
    d.digits ++ List.replicate (d.point.toNat - d.digits.length) '0'
  else d.digits.take d.point.toNat ++ ['.'] ++ d.digits.drop d.point.toNat

/-- Digits laid out with a power of ten: a point behind the first digit if others follow. -/
def Decimal.scientific (d : Decimal) : List Char :=
  let fraction :=
    match d.digits.drop 1 with
    | [] => []
    | rest => '.' :: rest
  d.digits.take 1 ++ fraction ++ ['e'] ++ (toString (d.point - 1)).toList

/-- A number in plain positional form: no exponent, and no point in a whole number. -/
def toPlain : Binary64 → String
  | .nan => "NaN"
  | .infinite s => if s then "-inf" else "inf"
  | .finite s m e =>
      let magnitude := if m = 0 then ['0'] else (shortest m e).positional
      String.ofList (if s then '-' :: magnitude else magnitude)

/-- A number in plain form that always shows a point. -/
def toPointed (x : Binary64) : String :=
  let plain := x.toPlain
  if plain.toList.contains '.' then plain else plain ++ ".0"

/-- A number with a power of ten when it is 10^16 or more or below 10^-5, and pointed else. -/
def toCompact (x : Binary64) : String :=
  match x with
  | .finite s m e =>
      let d := shortest m e
      if m ≠ 0 ∧ (d.point ≤ -5 ∨ 16 < d.point) then
        String.ofList (if s then '-' :: d.scientific else d.scientific)
      else x.toPointed
  | _ => x.toPlain

end SchemaDoc.Binary64
