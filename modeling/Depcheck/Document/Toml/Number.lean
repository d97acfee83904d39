import Depcheck.Text.Digits

/-!
# Numbers in TOML

Whole numbers may have a sign, underscores between digits, and a base, and fit into 64 bits with a
sign. Decimals have a fraction, an exponent or both, and the nearest number in double precision must
not be infinite; only for negative decimals it may. Infinity itself can be written as a word.
-/

namespace Depcheck.Document.Toml

/-- Digits with single underscores between them. -/
def plainDigits? (isDigit : Char → Bool) : List Char → Option (List Char)
  | [] => none
  | [c] => if isDigit c then some [c] else none
  | c :: '_' :: rest => if isDigit c then (plainDigits? isDigit rest).map (c :: ·) else none
  | c :: rest => if isDigit c then (plainDigits? isDigit rest).map (c :: ·) else none

/-- The digits of a number that no zero leads. -/
def wholeDigits? (s : List Char) : Option (List Char) := do
  let digits ← plainDigits? Char.isDigit s
  if digits.length > 1 ∧ digits.head? = some '0' then none else some digits

def readSign (s : List Char) : Bool × List Char :=
  match s with
  | '-' :: rest => (true, rest)
  | '+' :: rest => (false, rest)
  | _ => (false, s)

def signedValue (negative : Bool) (digits : List Char) : Int :=
  if negative then -Text.decimalValue digits else Text.decimalValue digits

/-! ## Whole numbers -/

def basedNumber? (base : Nat) (s : List Char) : Option Int := do
  let digits ← plainDigits? (fun c => (Text.valueInBase? base [c]).isSome) s
  let n ← Text.valueInBase? base digits
  some n

/-- The whole number that a word writes; it must fit into 64 bits with a sign. -/
def wholeNumber? (word : List Char) : Option Int := do
  let n ← match word with
    | '0' :: 'x' :: rest => basedNumber? 16 rest
    | '0' :: 'o' :: rest => basedNumber? 8 rest
    | '0' :: 'b' :: rest => basedNumber? 2 rest
    | _ => (wholeDigits? (readSign word).2).map (signedValue (readSign word).1)
  if -9223372036854775808 ≤ n ∧ n ≤ 9223372036854775807 then some n else none

/-! ## Decimals -/

/-- The number that `digits` write, times ten to the power of `exponent`. -/
structure Decimal where
  negative : Bool
  digits : List Char
  exponent : Int

/-- The least number that is no nearer to the largest finite number of double precision than to
`2 ^ 1024`, the next one if there were one. -/
def doubleBound : Nat := Nat.pow 2 1024 - Nat.pow 2 970

/-- Is the number, without its sign, rounded to infinity in double precision? A comparison is due
only when there are 309 digits before the point: with fewer the number is finite, with more it is
not. -/
def Decimal.overflows (d : Decimal) : Bool :=
  let digits := d.digits.dropWhile (· == '0')
  let places := digits.length + d.exponent
  if digits = [] ∨ places < 309 then false
  else if 309 < places then true
  else decide (doubleBound * Nat.pow 10 (-d.exponent).toNat ≤
    Text.decimalValue digits * Nat.pow 10 d.exponent.toNat)

def isExponentMark (c : Char) : Bool := c == 'e' || c == 'E'

/-- Reads an exponent with its letter; nothing stands for the exponent zero. -/
def exponent? : List Char → Option Int
  | [] => some 0
  | _ :: rest => (plainDigits? Char.isDigit (readSign rest).2).map (signedValue (readSign rest).1)

def fraction? : List Char → Option (List Char)
  | [] => some []
  | _ :: rest => plainDigits? Char.isDigit rest

/-- The decimal that a word writes; without a fraction and an exponent, a number is whole. -/
def decimal? (word : List Char) : Option Decimal := do
  let (negative, body) := readSign word
  let mantissa := body.takeWhile (!isExponentMark ·)
  let power := body.dropWhile (!isExponentMark ·)
  let whole ← wholeDigits? (mantissa.takeWhile (· != '.'))
  let part := mantissa.dropWhile (· != '.')
  let fraction ← fraction? part
  let exponent ← exponent? power
  if part = [] ∧ power = [] then none
  else some { negative, digits := whole ++ fraction, exponent := exponent - fraction.length }

/-- Does the word stand for infinity or for no number, perhaps after a sign? -/
def isSpecialNumber (word : List Char) : Bool :=
  let body := (readSign word).2
  body == "inf".toList || body == "nan".toList

/-- Does the word stand for a number that is not written as a whole one? Only a negative number may
be beyond double precision. -/
def isDecimal (word : List Char) : Bool :=
  isSpecialNumber word || (decimal? word).any fun d => d.negative || !d.overflows

end Depcheck.Document.Toml
