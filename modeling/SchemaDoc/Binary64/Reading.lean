import SchemaDoc.Binary64.Basic

/-! Decimal texts of floating-point numbers. A text is a sign, then digits with an optional
point and exponent or one of the words for infinity and for no number, in any case.
-/

namespace SchemaDoc.Binary64

/-- The value of a digit list in base ten, most significant digit first. -/
def valueOfDigits (digits : List Char) : Nat :=
  digits.foldl (fun value c => value * 10 + (c.toNat - '0'.toNat)) 0

/-- The sign in front of a text, and what follows it. -/
def readSign : List Char → Bool × List Char
  | '-' :: rest => (true, rest)
  | '+' :: rest => (false, rest)
  | rest => (false, rest)

/-- The digits at the start of a text, and what follows them. -/
def readDigits (text : List Char) : List Char × List Char :=
  (text.takeWhile Char.isDigit, text.dropWhile Char.isDigit)

/-- What stands behind the digits of a number: nothing, or an exponent with digits. -/
def readExponent? : List Char → Option Int
  | [] => some 0
  | mark :: rest =>
      if mark = 'e' ∨ mark = 'E' then
        let (negative, rest) := readSign rest
        match readDigits rest with
        | ([], _) => none
        | (_ :: _, _ :: _) => none
        | (digits, []) =>
            let magnitude : Int := valueOfDigits digits
            some (if negative then -magnitude else magnitude)
      else none

/-- A number without its sign: digits on at least one side of an optional point, and an
optional exponent.
-/
def readMagnitude? (negative : Bool) (text : List Char) : Option Binary64 := do
  let (whole, rest) := readDigits text
  let (fraction, rest) :=
    match rest with
    | '.' :: rest => readDigits rest
    | rest => ([], rest)
  if whole = [] ∧ fraction = [] then none
  else
    let exponent ← readExponent? rest
    some (ofDecimal negative (valueOfDigits (whole ++ fraction)) (exponent - fraction.length))

/-- The words that stand for a number, in lower case. -/
def readWord? (negative : Bool) (text : List Char) : Option Binary64 :=
  let word := text.map Char.toLower
  if word = "inf".toList ∨ word = "infinity".toList then some (.infinite negative)
  else if word = "nan".toList then some .nan
  else none

/-- The number that a whole text denotes, correctly rounded. -/
def read? (text : List Char) : Option Binary64 :=
  let (negative, rest) := readSign text
  (readWord? negative rest).orElse fun _ => readMagnitude? negative rest

/-- The number that the longest readable start of a text denotes. -/
def readLongest? (text : List Char) : Option Binary64 :=
  (List.range (text.length + 1)).reverse.findSome? fun length => read? (text.take length)

end SchemaDoc.Binary64
