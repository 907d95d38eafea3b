import SourceIndex.Text.Lines

/-!
Decimal numbers as text: reading whole numbers within a bound, writing fractions to a fixed number of
places, and padding.
-/

namespace SourceIndex.Text

/-- The value of decimal digits. -/
def digitsValue (digits : Chars) : Nat :=
  digits.foldl (fun n c => n * 10 + (c.toNat - '0'.toNat)) 0

/-- An unsigned number up to a bound: digits, maybe after a plus sign. -/
def parseNat? (bound : Nat) (s : Chars) : Option Nat :=
  let digits := (stripStart? ['+'] s).getD s
  if digits.isEmpty || !digits.all Char.isDigit then none
  else
    let n := digitsValue digits
    if n ≤ bound then some n else none

/-- The largest number of 64 bits. -/
def maxWord64 : Nat := Nat.pow 2 64 - 1

def natText (n : Nat) : Chars := Nat.toDigits 10 n

/-- A quotient rounded to the nearest whole number; of two equally near ones, to the even one. -/
def roundHalfEven (num den : Nat) : Nat :=
  let q := num / den
  let rest := 2 * (num % den)
  if rest < den then q
  else if den < rest then q + 1
  else q + q % 2

/-- A fraction with the given number of decimal places. -/
def fixedPlaces (places num den : Nat) : Chars :=
  let scaled := roundHalfEven (num * Nat.pow 10 places) den
  let fraction := natText (scaled % Nat.pow 10 places)
  natText (scaled / Nat.pow 10 places) ++ '.' :: List.replicate (places - fraction.length) '0' ++ fraction

def padLeft (width : Nat) (s : Chars) : Chars := List.replicate (width - s.length) ' ' ++ s

def padRight (width : Nat) (s : Chars) : Chars := s ++ List.replicate (width - s.length) ' '

end SourceIndex.Text
