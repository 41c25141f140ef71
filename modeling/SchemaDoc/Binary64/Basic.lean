/-! Binary floating-point numbers of sixty-four bits, as a significand and a power of two.
All arithmetic is exact on naturals followed by one rounding to nearest, ties to even.
-/

namespace SchemaDoc

/-- A number of sixty-four bits. A finite one is its significand times two to its exponent;
the two zeros differ in sign only.
-/
inductive Binary64 where
  | finite (negative : Bool) (significand : Nat) (exponent : Int)
  | infinite (negative : Bool)
  | nan
  deriving DecidableEq, Repr, Inhabited

namespace Binary64

/-- The exponent of the least positive number and of both zeros. -/
def minExponent : Int := -1074

/-- The greatest exponent of a finite number. -/
def maxExponent : Int := 971

/-- Zero with the sign given. -/
def zero (negative : Bool) : Binary64 := .finite negative 0 minExponent

/-- Whether the number is one of the two zeros. -/
def isZero : Binary64 → Bool
  | .finite _ m _ => m == 0
  | _ => false

/-- The number with the opposite sign. -/
def neg : Binary64 → Binary64
  | .finite s m e => .finite (!s) m e
  | .infinite s => .infinite (!s)
  | .nan => .nan

/-- The natural number nearest to a quotient; a tie goes to the even one. -/
def divideToEven (n d : Nat) : Nat :=
  let q := n / d
  let r := n % d
  if 2 * r < d then q
  else if d < 2 * r then q + 1
  else q + q % 2

/-- The quotient `n / d`, scaled by a power of two, as a numerator and a denominator. -/
def scale (n d : Nat) (exponent : Int) : Nat × Nat :=
  (n * Nat.pow 2 exponent.toNat, d * Nat.pow 2 (-exponent).toNat)

/-- Whether `n / d` is at least two to the exponent given. -/
def reachesPower (n d : Nat) (exponent : Int) : Bool :=
  let (a, b) := scale n d (-exponent)
  b ≤ a

/-- The exponent of the greatest power of two that is at most `n / d`. The difference of the
two bit lengths is either that exponent or one more.
-/
def floorLog2 (n d : Nat) : Int :=
  let guess := (n.log2 : Int) - d.log2
  if reachesPower n d guess then guess else guess - 1

/-- The number nearest to plus or minus `n / d`, ties to the even significand. What rounds
past the greatest finite number is infinite, and what rounds to nothing is a signed zero.
-/
def ofRatio (negative : Bool) (n d : Nat) : Binary64 :=
  if n = 0 ∨ d = 0 then zero negative
  else
    let exponent := max minExponent (floorLog2 n d - 52)
    let (a, b) := scale n d (-exponent)
    let m := divideToEven a b
    let (m, exponent) := if m = Nat.pow 2 53 then (Nat.pow 2 52, exponent + 1) else (m, exponent)
    if m = 0 then zero negative
    else if maxExponent < exponent then .infinite negative
    else .finite negative m exponent

/-- The number nearest to a natural number. -/
def ofNat (n : Nat) : Binary64 := ofRatio false n 1

/-- The number nearest to a whole number. -/
def ofInt (n : Int) : Binary64 := ofRatio (decide (n < 0)) n.natAbs 1

/-- The number nearest to plus or minus `digits` times ten to the exponent. Exponents so far
out that the result is surely infinite or zero are decided by the count of digits alone.
-/
def ofDecimal (negative : Bool) (digits : Nat) (exponent : Int) : Binary64 :=
  let magnitude := ((Nat.toDigits 10 digits).length : Int) + exponent
  if digits = 0 then zero negative
  else if 310 < magnitude then .infinite negative
  else if magnitude < -330 then zero negative
  else ofRatio negative (digits * Nat.pow 10 exponent.toNat) (Nat.pow 10 (-exponent).toNat)

/-- The rounded product. Infinity times zero has no value. -/
def mul : Binary64 → Binary64 → Binary64
  | .nan, _ => .nan
  | _, .nan => .nan
  | .infinite s, .infinite t => .infinite (s ^^ t)
  | .infinite s, .finite t m _ => if m = 0 then .nan else .infinite (s ^^ t)
  | .finite s m _, .infinite t => if m = 0 then .nan else .infinite (s ^^ t)
  | .finite s m e, .finite t n f =>
      let (a, b) := scale (m * n) 1 (e + f)
      ofRatio (s ^^ t) a b

/-- The rounded quotient. Zero by zero and infinity by infinity have no value. -/
def div : Binary64 → Binary64 → Binary64
  | .nan, _ => .nan
  | _, .nan => .nan
  | .infinite _, .infinite _ => .nan
  | .infinite s, .finite t _ _ => .infinite (s ^^ t)
  | .finite s _ _, .infinite t => zero (s ^^ t)
  | .finite s m e, .finite t n f =>
      if n = 0 then (if m = 0 then .nan else .infinite (s ^^ t))
      else
        let (a, b) := scale m n (e - f)
        ofRatio (s ^^ t) a b

end Binary64

end SchemaDoc
