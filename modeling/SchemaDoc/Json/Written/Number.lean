import SchemaDoc.Json.Written

/-! Numbers as they are written in JSON. Short whole numbers are kept exactly; all others are scaled
from a significand of sixty-four bits, and rounded once more by that.
-/

namespace SchemaDoc.Json

namespace Written

/-- The greatest whole number of sixty-four bits. -/
def maxInteger : Nat := Nat.pow 2 64 - 1

/-- Adds digits to a number for as long as it stays within sixty-four bits; gives the number and
the digits that were left over.
-/
def absorb (n : Nat) : List Char → Nat × List Char
  | [] => (n, [])
  | c :: digits =>
      let next := n * 10 + (c.toNat - '0'.toNat)
      if maxInteger < next then (n, c :: digits) else absorb next digits

/-- The greatest power of ten that is divided or multiplied by at once. -/
def maxPower : Nat := 308

/-- A number divided by ten to an exponent, in steps of at most the greatest power. Every step
rounds; a few steps make any number zero.
-/
def divideByPower (x : Binary64) (exponent : Nat) : Nat → Binary64
  | 0 => x
  | steps + 1 =>
      if exponent ≤ maxPower then x.div (.ofDecimal false 1 exponent)
      else if x.isZero then x
      else divideByPower (x.div (.ofDecimal false 1 maxPower)) (exponent - maxPower) steps

/-- The number nearest to a significand, times ten to an exponent; none when it is too large.
The significand and the scaling are rounded one after the other.
-/
def scaled? (significand : Nat) (exponent : Int) : Option Binary64 :=
  let x := Binary64.ofNat significand
  if exponent < 0 then some (divideByPower x exponent.natAbs 4)
  else if maxPower < exponent then (if x.isZero then some x else none)
  else
    match x.mul (.ofDecimal false 1 exponent) with
    | .infinite _ => none
    | product => some product

/-- The greatest exponent that is read digit by digit. -/
def maxExponent : Nat := Nat.pow 2 31 - 1

/-- The parts of a number: its digits in front of and behind the point, and its exponent with
the exponent's sign. A part that is not written is none.
-/
structure NumberParts where
  negative : Bool
  whole : List Char
  fraction : Option (List Char)
  exponent : Option (Bool × List Char)
  deriving Repr

namespace NumberParts

/-- The value of a number with a fraction, an exponent or too many digits. -/
def float? (parts : NumberParts) : Option Binary64 :=
  let (significand, left) := absorb 0 parts.whole
  let fraction := parts.fraction.getD []
  let (significand, unused) := absorb significand fraction
  let point : Int := left.length - (fraction.length - unused.length)
  let exponent := parts.exponent.getD (false, [])
  let magnitude := exponent.2.foldl (fun n c => n * 10 + (c.toNat - '0'.toNat)) 0
  let unsigned :=
    if maxExponent < magnitude then
      (if significand ≠ 0 ∧ !exponent.1 then none else some (Binary64.zero false))
    else scaled? significand (if exponent.1 then point - magnitude else point + magnitude)
  unsigned.map fun x => if parts.negative then x.neg else x

/-- The value of a number. Whole numbers of up to sixty-four bits are kept exactly, those below
zero if they fit sixty-three; minus zero is no whole number.
-/
def value? (parts : NumberParts) : Option Number :=
  match parts.fraction, parts.exponent, absorb 0 parts.whole with
  | none, none, (n, []) =>
      if !parts.negative then some (.integer n)
      else if 0 < n ∧ n ≤ Nat.pow 2 63 then some (.integer (-n))
      else some (.float (Binary64.ofNat n).neg)
  | _, _, _ => parts.float?.map .float

end NumberParts

/-- Digits at the front of a text, of which there must be at least one. -/
def scanDigits (onOther : List Char → Fault) (text : List Char)
    : Except Fault (List Char × List Char) :=
  match text.takeWhile Char.isDigit, text with
  | [], [] => .error (.taken .endInNumber [])
  | [], other => .error (onOther other)
  | digits, _ => .ok (digits, text.dropWhile Char.isDigit)

/-- The digits in front of the point; only a single one may be zero at the front. -/
def scanWhole (text : List Char) : Except Fault (List Char × List Char) := do
  let (digits, rest) ← scanDigits (fun other => ⟨.invalidNumber, other.length, 1⟩) text
  match digits with
  | '0' :: _ :: _ => .error ⟨.invalidNumber, text.length - 1, 1⟩
  | _ => .ok (digits, rest)

/-- The digits behind the point, if there is a point. -/
def scanFraction : List Char → Except Fault (Option (List Char) × List Char)
  | '.' :: rest => do
      let (digits, rest) ← scanDigits (fun other => .peeked .invalidNumber other) rest
      .ok (some digits, rest)
  | text => .ok (none, text)

/-- The exponent, if there is one. -/
def scanExponent : List Char → Except Fault (Option (Bool × List Char) × List Char)
  | [] => .ok (none, [])
  | mark :: rest =>
      if mark = 'e' ∨ mark = 'E' then do
        let (negative, rest) :=
          match rest with
          | '-' :: rest => (true, rest)
          | '+' :: rest => (false, rest)
          | rest => (false, rest)
        let (digits, rest) ←
          scanDigits (fun other => ⟨.invalidNumber, other.length, 1⟩) rest
        .ok (some (negative, digits), rest)
      else .ok (none, mark :: rest)

/-- The parts of a number, and the text behind it. -/
def scanParts (text : List Char) : Except Fault (NumberParts × List Char) := do
  let (negative, text) :=
    match text with
    | '-' :: rest => (true, rest)
    | text => (false, text)
  let (whole, text) ← scanWhole text
  let (fraction, text) ← scanFraction text
  let (exponent, text) ← scanExponent text
  .ok (⟨negative, whole, fraction, exponent⟩, text)

/-- A number. -/
def scanNumber (text : List Char) : Scanned Written :=
  match scanParts text with
  | .error fault => (broken fault, none)
  | .ok (parts, rest) =>
      match parts.value? with
      | some n => (number n, some rest)
      | none => (doubtful (.taken .numberOutOfRange rest) null, some rest)

end Written

end SchemaDoc.Json
