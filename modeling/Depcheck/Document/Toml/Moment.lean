import Depcheck.Text.Digits

/-!
# Dates and times in TOML

A date is a day of the calendar, as `1979-05-27`. A time of day is a clock's reading with seconds,
as `07:32:00`, perhaps with a fraction. A date may have a time after a `T` or a blank, and that time
may name its distance from universal time.
-/

namespace Depcheck.Document.Toml

/-- Are the two characters digits of a number from `low` to `high`? -/
def inRange (low high : Nat) (a b : Char) : Bool :=
  a.isDigit && b.isDigit && decide (low ≤ Text.decimalValue [a, b]) &&
    decide (Text.decimalValue [a, b] ≤ high)

def isLeapYear (year : Nat) : Bool :=
  year % 4 == 0 && (year % 100 != 0 || year % 400 == 0)

def daysInMonth (year month : Nat) : Nat :=
  if month = 2 then if isLeapYear year then 29 else 28
  else if month = 4 ∨ month = 6 ∨ month = 9 ∨ month = 11 then 30
  else 31

def isDate : List Char → Bool
  | [a, b, c, d, '-', e, f, '-', g, h] =>
    [a, b, c, d].all Char.isDigit && inRange 1 12 e f &&
      inRange 1 (daysInMonth (Text.decimalValue [a, b, c, d]) (Text.decimalValue [e, f])) g h
  | _ => false

def skipFraction? : List Char → Option (List Char)
  | '.' :: c :: rest => if c.isDigit then some (rest.dropWhile Char.isDigit) else none
  | '.' :: [] => none
  | s => some s

/-- Drops a time of day; a minute may have a leap second. -/
def skipTime? : List Char → Option (List Char)
  | a :: b :: ':' :: c :: d :: ':' :: e :: f :: rest =>
    if inRange 0 23 a b && inRange 0 59 c d && inRange 0 60 e f then skipFraction? rest else none
  | _ => none

/-- Is it a distance from universal time? -/
def isOffset : List Char → Bool
  | [c] => c == 'Z' || c == 'z'
  | [sign, a, b, ':', c, d] => (sign == '+' || sign == '-') && inRange 0 23 a b && inRange 0 59 c d
  | _ => false

def isTime (s : List Char) : Bool := skipTime? s == some []

/-- Is it a time of day, perhaps with its distance from universal time? -/
def isZonedTime (s : List Char) : Bool :=
  (skipTime? s).any fun rest => rest.isEmpty || isOffset rest

def isTimeMark (c : Char) : Bool := c == 'T' || c == 't' || c == ' '

/-- Is the word a date, a time of day, or a date with a time? -/
def isMoment (word : List Char) : Bool :=
  isDate word || isTime word ||
    match word.drop 10 with
    | mark :: time => isDate (word.take 10) && isTimeMark mark && isZonedTime time
    | [] => false

end Depcheck.Document.Toml
