import SourceIndex.Text.Decimal

/-!
Values of configuration texts: single values as they are written in one word, and values that hold
others.
-/

namespace SourceIndex.Toml
open Text

inductive Value where
  | string (s : String)
  | integer (n : Int)
  | bool (b : Bool)
  /-- A number with a fraction or an exponent, as it was written. -/
  | float (text : String)
  /-- A date, a time or both, as it was written. -/
  | date (text : String)
  | array (items : List Value)
  | table (fields : List (String × Value))
  deriving Repr, Inhabited

/-- Digits that single underscores may separate. -/
def isRun (isDigit : Char → Bool) : Chars → Bool
  | [] => false
  | [c] => isDigit c
  | c :: '_' :: rest => isDigit c && isRun isDigit rest
  | c :: rest => isDigit c && isRun isDigit rest

/-- Decimal digits without a needless zero at the start. -/
def isDecimal (s : Chars) : Bool :=
  isRun Char.isDigit s && (s.head? ≠ some '0' || s.length = 1)

/-- The value of digits to a base, which underscores may separate. -/
def runValue (base : Nat) (s : Chars) : Nat :=
  (s.filterMap hexValue?).foldl (fun n d => n * base + d) 0

/-- A number to a base of a power of two. -/
def baseInteger? (base : Nat) (s : Chars) : Option Int :=
  if isRun (fun c => (hexValue? c).any (· < base)) s then
    let n := runValue base s
    if n < Nat.pow 2 63 then some n else none
  else none

/-- A whole number of 64 bits with a sign. -/
def integer? (s : Chars) : Option Int :=
  match s with
  | '0' :: 'x' :: rest => baseInteger? 16 rest
  | '0' :: 'o' :: rest => baseInteger? 8 rest
  | '0' :: 'b' :: rest => baseInteger? 2 rest
  | '-' :: rest =>
    if isDecimal rest && runValue 10 rest ≤ Nat.pow 2 63 then some (-(runValue 10 rest : Int)) else none
  | s =>
    let digits := (stripStart? ['+'] s).getD s
    if isDecimal digits && runValue 10 digits < Nat.pow 2 63 then some (runValue 10 digits) else none

/-- An exponent, which may be missing. -/
def isExponent : Chars → Bool
  | [] => true
  | c :: rest =>
    let digits := if rest.head? = some '+' || rest.head? = some '-' then rest.tail else rest
    (c = 'e' || c = 'E') && isRun Char.isDigit digits

/-- A number with a fraction or an exponent, or one that is infinite or no number at all. -/
def isFloat (s : Chars) : Bool :=
  let s := if s.head? = some '+' || s.head? = some '-' then s.tail else s
  let isPart (c : Char) : Bool := c.isDigit || c = '_'
  let after := s.dropWhile isPart
  s = "inf".toList || s = "nan".toList ||
    isDecimal (s.takeWhile isPart) &&
      match after with
      | [] => false
      | '.' :: rest => isRun Char.isDigit (rest.takeWhile isPart) && isExponent (rest.dropWhile isPart)
      | rest => isExponent rest

end SourceIndex.Toml
