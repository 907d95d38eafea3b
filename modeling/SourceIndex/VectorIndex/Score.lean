import SourceIndex.Json
import SourceIndex.Text.Decimal

/-!
Scores of matches, as binary numbers of single precision. A score is kept as a whole number times a
power of two, so rounding, order and decimal text are exact computations on whole numbers.
-/

namespace SourceIndex.VectorIndex
open Text

inductive Score where
  /-- The value `mantissa * 2 ^ exponent`, with a sign. -/
  | finite (negative : Bool) (mantissa : Nat) (exponent : Int)
  | infinite (negative : Bool)
  deriving DecidableEq, Repr

namespace Score

def zero : Score := .finite false 0 0

/-- A binary format: how many digits a mantissa has, the least exponent, and the exponent of the
first power of two that is out of range. -/
structure Format where
  digits : Nat
  least : Int
  limit : Int

def single : Format := ⟨24, -149, 128⟩

def double : Format := ⟨53, -1074, 1024⟩

/-- The fraction `num / den * 2 ^ (-exponent)`. -/
def scaled (num den : Nat) (exponent : Int) : Nat × Nat :=
  if 0 ≤ exponent then (num, den * Nat.pow 2 exponent.toNat) else (num * Nat.pow 2 exponent.natAbs, den)

/-- The nearest number of the format to a fraction; of two equally near ones, the even one. -/
def round (format : Format) (negative : Bool) (num den : Nat) : Score :=
  if num = 0 then .finite negative 0 0
  else
    let guess : Int := (num.log2 : Int) - den.log2 - format.digits
    let exponent :=
      let (n, d) := scaled num den guess
      max format.least (if Nat.pow 2 format.digits * d ≤ n then guess + 1 else guess)
    let (n, d) := scaled num den exponent
    let mantissa := roundHalfEven n d
    if format.limit ≤ (mantissa.log2 : Int) + exponent && mantissa ≠ 0 then .infinite negative
    else .finite negative mantissa exponent

/-- The magnitude of a finite score as a fraction. -/
def fraction (mantissa : Nat) (exponent : Int) : Nat × Nat :=
  if 0 ≤ exponent then (mantissa * Nat.pow 2 exponent.toNat, 1) else (mantissa, Nat.pow 2 exponent.natAbs)

/-- Round a score of a wider format. -/
def narrow (format : Format) : Score → Score
  | .finite negative mantissa exponent =>
    let (num, den) := fraction mantissa exponent
    round format negative num den
  | .infinite negative => .infinite negative

/-- The share of hits among terms; zero if there are no terms. -/
def ofRatio (hits terms : Nat) : Score :=
  if terms = 0 then zero else round single false hits terms

/-- The score that a number stands for, rounded to double precision first. -/
def ofNumber : Json.Number → Score
  | .integer n => narrow single (round double (n < 0) n.natAbs 1)
  | .decimal negative digits exponent =>
    narrow single <|
      if 400 < exponent.natAbs + (natText digits).length then
        if 0 < exponent && digits ≠ 0 then .infinite negative else .finite negative 0 0
      else if 0 ≤ exponent then round double negative (digits * Nat.pow 10 exponent.toNat) 1
      else round double negative digits (Nat.pow 10 exponent.natAbs)

/-- Signed order; both zeros are equal. -/
def le : Score → Score → Bool
  | .infinite negative, .infinite negative' => negative || !negative'
  | .infinite negative, .finite .. => negative
  | .finite .., .infinite negative => !negative
  | .finite negative mantissa exponent, .finite negative' mantissa' exponent' =>
    let (num, den) := fraction mantissa exponent
    let (num', den') := fraction mantissa' exponent'
    let left : Int := if negative then -(num * den' : Nat) else (num * den' : Nat)
    let right : Int := if negative' then -(num' * den : Nat) else (num' * den : Nat)
    left ≤ right

/-- The decimal text with a fixed number of places. -/
def text (places : Nat) : Score → String
  | .infinite negative => if negative then "-inf" else "inf"
  | .finite negative mantissa exponent =>
    let (num, den) := fraction mantissa exponent
    String.ofList ((if negative then ['-'] else []) ++ fixedPlaces places num den)

/-! ### The shortest decimal -/

/-- A fraction times a power of ten, rounded to a whole number. -/
def timesTen (num den : Nat) (power : Int) : Nat :=
  if 0 ≤ power then roundHalfEven (num * Nat.pow 10 power.toNat) den
  else roundHalfEven num (den * Nat.pow 10 power.natAbs)

/-- The first decimal of at least so many more places that is rounded to the score, trying at most
`fuel` numbers of places. -/
def decimalFrom (score : Score) (negative : Bool) (num den : Nat) : Nat → Int → Json.Number
  | 0, places => .decimal negative (timesTen num den places) (-places)
  | fuel + 1, places =>
    let number := Json.Number.decimal negative (timesTen num den places) (-places)
    let back := ofNumber number
    if back.le score && score.le back then number
    else decimalFrom score negative num den fuel (places + 1)

/-- The shortest decimal that is rounded to the score; what is not finite has none. -/
def toJson : Score → Json
  | .infinite _ => .null
  | .finite negative mantissa exponent =>
    let (num, den) := fraction mantissa exponent
    let start : Int := ((den.log2 : Int) - num.log2) * 3 / 10 - 1
    .number (decimalFrom (.finite negative mantissa exponent) negative num den 16 start)

end Score
end SourceIndex.VectorIndex
