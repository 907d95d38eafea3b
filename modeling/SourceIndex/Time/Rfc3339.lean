import SourceIndex.Text.Reader
import SourceIndex.Time

/-!
The text form of points in time: a date, a time of day and an offset. Writing is exact, in universal
time, with as few groups of three fraction digits as are needed. Reading is lenient: blanks may stand
before every number and sign, numbers may be short, and the offset may be a name or have a minus sign
of its own.
-/

namespace SourceIndex.Time
open Text

/-- Decimal digits, filled up with zeros to a width. -/
def digits (width n : Nat) : Chars :=
  let text := Nat.toDigits 10 n
  List.replicate (width - text.length) '0' ++ text

/-- Years of four digits have no sign. -/
def yearText (year : Int) : Chars :=
  if 0 ≤ year && year ≤ 9999 then digits 4 year.toNat
  else (if year < 0 then '-' else '+') :: digits 4 year.natAbs

def fractionText (nanos : Nat) : Chars :=
  if nanos = 0 then []
  else if nanos % 1000000 = 0 then '.' :: digits 3 (nanos / 1000000)
  else if nanos % 1000 = 0 then '.' :: digits 6 (nanos / 1000)
  else '.' :: digits 9 nanos

def toText (time : Time) : String :=
  let date := time.date
  let second := time.secondOfDay
  let leap := if 1000000000 ≤ time.nanos then 1 else 0
  String.ofList <|
    yearText date.year ++ '-' :: digits 2 date.month ++ '-' :: digits 2 date.day ++
      'T' :: digits 2 (second / 3600) ++ ':' :: digits 2 (second / 60 % 60) ++
      ':' :: digits 2 (second % 60 + leap) ++ fractionText (time.nanos - leap * 1000000000) ++ ['Z']

/-- A number of at least one and at most `width` digits, after blanks. -/
def number (width : Nat) : Reader Nat := fun s =>
  let s := trimStart s
  let found := (s.take width).takeWhile Char.isDigit
  if found.isEmpty then none
  else some (found.foldl (fun n c => n * 10 + (c.toNat - '0'.toNat)) 0, s.drop found.length)

/-- A number within bounds. -/
def numberWithin (width low high : Nat) : Reader Nat := fun s =>
  (number width s).filter fun (n, _) => low ≤ n && n ≤ high

/-- A year has four digits at most, or a sign and any number of digits. -/
def year : Reader Int := fun s =>
  match trimStart s with
  | '-' :: rest =>
    match rest with
    | c :: _ => if c.isDigit then (number rest.length rest).map fun (n, rest) => (-(n : Int), rest) else none
    | [] => none
  | '+' :: rest =>
    match rest with
    | c :: _ => if c.isDigit then (number rest.length rest).map fun (n, rest) => ((n : Int), rest) else none
    | [] => none
  | s => (number 4 s).map fun (n, rest) => ((n : Int), rest)

/-- A sign, after blanks. -/
def sign (c : Char) (s : Chars) : Option Chars := stripStart? [c] (trimStart s)

/-- Nanoseconds after a point; digits past the ninth do not count. -/
def fraction : Reader Nat
  | '.' :: rest =>
    let found := (rest.take 9).takeWhile Char.isDigit
    if found.isEmpty then none
    else
      let n := found.foldl (fun n c => n * 10 + (c.toNat - '0'.toNat)) 0
      some (n * Nat.pow 10 (9 - found.length), (rest.drop found.length).dropWhile Char.isDigit)
  | s => some (0, s)

/-- Two digits at the very front. -/
def twoDigits : Reader Nat
  | a :: b :: rest =>
    if a.isDigit && b.isDigit then
      some ((a.toNat - '0'.toNat) * 10 + (b.toNat - '0'.toNat), rest)
    else none
  | _ => none

/-- Seconds east of universal time after a sign. -/
def signedOffset (negative : Bool) : Reader Int := fun s => do
  let (hours, s) ← twoDigits s
  let (minutes, s) ← twoDigits (s.dropWhile fun c => c = ':' || isBlank c)
  let seconds : Int := hours * 3600 + minutes * 60
  if minutes < 60 && hours < 24 then some (if negative then -seconds else seconds, s) else none

/-- Seconds east of universal time. -/
def offset : Reader Int := fun s =>
  if asciiLower (s.take 3) = "utc".toList then some (0, s.drop 3)
  else
    match s with
    | 'Z' :: rest | 'z' :: rest => some (0, rest)
    | '+' :: rest => signedOffset false rest
    | '-' :: rest | '\u2212' :: rest => signedOffset true rest
    | _ => none

/-- What stands between the date and the time of day. -/
def isDateEnd (c : Char) : Bool := c = 'T' || c = 't' || c = ' '

/-- The point in time that a text names. -/
def ofText? (text : String) : Option Time := do
  let (year, s) ← year text.toList
  let s ← sign '-' s
  let (month, s) ← numberWithin 2 1 12 s
  let s ← sign '-' s
  let (day, s) ← numberWithin 2 1 31 s
  let s ← match s with
    | c :: rest => if isDateEnd c then some rest else none
    | [] => none
  let (hour, s) ← numberWithin 2 0 23 s
  let s ← sign ':' s
  let (minute, s) ← numberWithin 2 0 59 s
  let s ← sign ':' s
  let (second, s) ← numberWithin 2 0 60 s
  let (nanos, s) ← fraction s
  let (east, s) ← offset (trimStart s)
  let date : Date := ⟨year, month, day⟩
  let leap := if second = 60 then 1 else 0
  let seconds := date.toDay * 86400 + ((hour * 3600 + minute * 60 + (second - leap) : Nat) : Int)
  let time : Time := ⟨seconds - east, nanos + leap * 1000000000⟩
  if isBlankText s && inYears year && date.isValid && time.inRange then some time else none

end SourceIndex.Time
