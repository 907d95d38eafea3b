import SourceIndex.Text.Reader
import SourceIndex.Time

/-!
Dates and times of configuration texts: a date, a time of day, or both with a letter or a blank between
them and maybe an offset.
-/

namespace SourceIndex.Toml
open Text

/-- A number of exactly so many digits within bounds. -/
def digitsWithin (count low high : Nat) : Reader Nat := fun s =>
  let digits := s.take count
  let n := digits.foldl (fun n c => n * 10 + (c.toNat - '0'.toNat)) 0
  if digits.length = count && digits.all Char.isDigit && low ≤ n && n ≤ high then
    some (n, s.drop count)
  else none

/-- The text after a date. -/
def afterDate? (s : Chars) : Option Chars := do
  let (year, s) ← digitsWithin 4 0 9999 s
  let (month, s) ← digitsWithin 2 1 12 (← stripStart? ['-'] s)
  let (_, s) ← digitsWithin 2 1 (Time.daysInMonth year month) (← stripStart? ['-'] s)
  some s

/-- The text after a fraction of a second, which may be missing. -/
def afterFraction? : Chars → Option Chars
  | '.' :: rest => if (rest.head?).any Char.isDigit then some (rest.dropWhile Char.isDigit) else none
  | s => some s

/-- The text after a time of day. -/
def afterTime? (s : Chars) : Option Chars := do
  let (_, s) ← digitsWithin 2 0 23 s
  let (_, s) ← digitsWithin 2 0 59 (← stripStart? [':'] s)
  let (_, s) ← digitsWithin 2 0 60 (← stripStart? [':'] s)
  afterFraction? s

/-- The text is an offset, which may be missing. -/
def isOffset : Chars → Bool
  | [] => true
  | ['Z'] | ['z'] => true
  | c :: rest =>
    (c = '+' || c = '-') &&
      match digitsWithin 2 0 23 rest with
      | some (_, ':' :: rest) => (digitsWithin 2 0 59 rest).any (·.2.isEmpty)
      | _ => false

/-- The text is a date, a time of day or both. -/
def isDate (s : Chars) : Bool :=
  match afterDate? s with
  | some [] => true
  | some (c :: rest) =>
    (c = 'T' || c = 't' || c = ' ') && (afterTime? rest).any isOffset
  | none => afterTime? s = some []

end SourceIndex.Toml
