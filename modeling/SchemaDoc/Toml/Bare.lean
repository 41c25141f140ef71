import SchemaDoc.Binary64.Reading

/-! Bare values in TOML: truth values, numbers, dates and times, told apart by their spelling.
A bare value is a whole run of the characters that such values consist of.
-/

namespace SchemaDoc.Toml

/-- A value that is written without quotes or brackets. What a date or a time says is not kept.
-/
inductive Bare where
  | boolean (b : Bool)
  | integer (n : Int)
  | float (x : Binary64)
  | dateTime
  deriving DecidableEq, Repr

namespace Bare

/-- The characters of bare values, blanks apart. -/
def isPart (c : Char) : Bool :=
  c.isAlphanum || c == '+' || c == '-' || c == '_' || c == '.' || c == ':'

/-! ### Numbers -/

/-- Digits without the underscores between them; an underscore must have a digit on both sides,
and there must be a digit.
-/
def digits? (isDigit : Char → Bool) : List Char → Option (List Char)
  | [] => none
  | [c] => if isDigit c then some [c] else none
  | c :: '_' :: rest => if isDigit c then (digits? isDigit rest).map (c :: ·) else none
  | c :: rest => if isDigit c then (digits? isDigit rest).map (c :: ·) else none

/-- Digits of a whole number, the first of which is zero only when it is the only one. -/
def whole? (text : List Char) : Option (List Char) :=
  if text.head? = some '0' ∧ text ≠ ['0'] then none else digits? Char.isDigit text

/-- The sign in front of a number, and the number. -/
def sign : List Char → Bool × List Char
  | '-' :: rest => (true, rest)
  | '+' :: rest => (false, rest)
  | text => (false, text)

/-- The value of a digit in bases of up to sixteen. -/
def digitValue (c : Char) : Nat :=
  if c.isDigit then c.toNat - '0'.toNat else c.toLower.toNat - 'a'.toNat + 10

/-- A whole number of up to sixty-four bits with its sign. -/
def inRange? (n : Int) : Option Int :=
  if -Nat.pow 2 63 ≤ n ∧ n < Nat.pow 2 63 then some n else none

/-- A whole number in a base, in digits of that base. -/
def inBase? (base : Nat) (isDigit : Char → Bool) (text : List Char) : Option Int := do
  let digits ← digits? isDigit text
  inRange? (digits.foldl (fun n c => n * base + digitValue c) 0 : Nat)

/-- Whether a character is a digit in base sixteen. -/
def isHexDigit (c : Char) : Bool :=
  c.isDigit || ('a' ≤ c && c ≤ 'f') || ('A' ≤ c && c ≤ 'F')

/-- A whole number. -/
def integer? : List Char → Option Int
  | '0' :: 'x' :: digits => inBase? 16 isHexDigit digits
  | '0' :: 'o' :: digits => inBase? 8 (fun c => '0' ≤ c && c ≤ '7') digits
  | '0' :: 'b' :: digits => inBase? 2 (fun c => c == '0' || c == '1') digits
  | text => do
      let (negative, text) := sign text
      let digits ← whole? text
      let n : Nat := digits.foldl (fun n c => n * 10 + digitValue c) 0
      inRange? (if negative then -n else n)

/-- The exponent of a number behind its mark: a sign and digits. -/
def exponent? (text : List Char) : Option (List Char) :=
  let (negative, text) := sign text
  (digits? Char.isDigit text).map fun digits => if negative then '-' :: digits else digits

/-- The digits of a number with a point or an exponent, without underscores. -/
def decimal? (text : List Char) : Option (List Char) := do
  let isMark (c : Char) : Bool := c == 'e' || c == 'E'
  let (mantissa, tail) := text.span fun c => !isMark c
  let (whole, fraction) := mantissa.span (· ≠ '.')
  let whole ← whole? whole
  let exponent ←
    match tail with
    | [] => some []
    | _ :: digits => (exponent? digits).map ('e' :: ·)
  let fraction ←
    match fraction with
    | [] => if tail.isEmpty then none else some []
    | _ :: digits => (digits? Char.isDigit digits).map ('.' :: ·)
  some (whole ++ fraction ++ exponent)

/-- A number with a point or an exponent, infinity, or none. A positive one that is too large
is refused.
-/
def float? (text : List Char) : Option Binary64 := do
  let (negative, text) := sign text
  let unsigned ←
    match text with
    | ['i', 'n', 'f'] => some (.infinite false)
    | ['n', 'a', 'n'] => some .nan
    | text => do
        let x ← Binary64.read? (← decimal? text)
        if x = .infinite false ∧ !negative then none else some x
  some (if negative then unsigned.neg else unsigned)

/-! ### Dates and times -/

/-- A number in a fixed number of digits, and the text behind it. -/
def number? (digits : Nat) (text : List Char) : Option (Nat × List Char) :=
  let front := text.take digits
  if front.length = digits ∧ front.all Char.isDigit then
    some (front.foldl (fun n c => n * 10 + digitValue c) 0, text.drop digits)
  else none

/-- The text behind a character. -/
def behind? (c : Char) : List Char → Option (List Char)
  | first :: rest => if first = c then some rest else none
  | [] => none

/-- The number of days of a month. -/
def daysOf (year month : Nat) : Nat :=
  if month = 2 then
    (if year % 4 = 0 ∧ (year % 100 ≠ 0 ∨ year % 400 = 0) then 29 else 28)
  else if month = 4 ∨ month = 6 ∨ month = 9 ∨ month = 11 then 30
  else 31

/-- The text behind a date: a year, a month and a day of it. -/
def behindDate? (text : List Char) : Option (List Char) := do
  let (year, text) ← number? 4 text
  let (month, text) ← number? 2 (← behind? '-' text)
  let (day, text) ← number? 2 (← behind? '-' text)
  if 1 ≤ month ∧ month ≤ 12 ∧ 1 ≤ day ∧ day ≤ daysOf year month then some text else none

/-- The text behind an hour and a minute. -/
def behindMinute? (text : List Char) : Option (List Char) := do
  let (hour, text) ← number? 2 text
  let (minute, text) ← number? 2 (← behind? ':' text)
  if hour ≤ 23 ∧ minute ≤ 59 then some text else none

/-- The text behind a time: an hour, a minute, and a second with or without a fraction. A
minute may have sixty-one seconds.
-/
def behindTime? (text : List Char) : Option (List Char) := do
  let text ← behindMinute? text
  let (second, text) ← number? 2 (← behind? ':' text)
  if 60 < second then none
  else
    match text with
    | '.' :: fraction =>
        let rest := fraction.dropWhile Char.isDigit
        if rest.length < fraction.length then some rest else none
    | text => some text

/-- Whether a text is a time, with or without an offset. -/
def isTimeWithOffset (text : List Char) : Bool :=
  match behindTime? text with
  | none => false
  | some [] | some ['Z'] | some ['z'] => true
  | some (sign :: offset) =>
      (sign == '+' || sign == '-') && behindMinute? offset == some []

/-- Whether a text is a date, a time, or both. -/
def isDateTime (text : List Char) : Bool :=
  match behindDate? text with
  | some [] => true
  | some (mark :: time) => (mark == 'T' || mark == 't') && isTimeWithOffset time
  | none => behindTime? text == some []

/-! ### Values -/

/-- The bare value that a run of characters spells. -/
def ofRun? (run : List Char) : Option Bare :=
  if run = ['t', 'r', 'u', 'e'] then some (boolean true)
  else if run = ['f', 'a', 'l', 's', 'e'] then some (boolean false)
  else if isDateTime run then some dateTime
  else ((float? run).map float).or ((integer? run).map integer)

/-- The time that may follow a date behind a blank, and the text behind it; what follows counts
as a time when it starts with a digit.
-/
def behindBlankTime? (text : List Char) : Option (List Char) :=
  match text with
  | ' ' :: rest =>
      if (rest.head?.elim false Char.isDigit) then
        if isTimeWithOffset (rest.takeWhile isPart) then some (rest.dropWhile isPart) else none
      else some text
  | text => some text

/-- The bare value at the front of a text, and what is behind it. -/
def scan (text : List Char) : Option (Bare × List Char) := do
  let run := text.takeWhile isPart
  let rest := text.dropWhile isPart
  let bare ← ofRun? run
  if behindDate? run = some [] then some (bare, ← behindBlankTime? rest)
  else some (bare, rest)

end Bare

end SchemaDoc.Toml
