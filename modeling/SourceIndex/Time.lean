/-!
Points in time, and the proleptic Gregorian calendar. A day is a number of days since the first of
January 1970; years and days may be negative.
-/

namespace SourceIndex

/-- Seconds since the start of 1970 in universal time, and the nanoseconds past the second. In a leap
second the nanoseconds go on beyond a billion. -/
structure Time where
  seconds : Int
  nanos : Nat
  deriving DecidableEq, Repr

namespace Time

structure Date where
  year : Int
  month : Nat
  day : Nat
  deriving DecidableEq, Repr

def isLeapYear (year : Int) : Bool :=
  year % 4 = 0 && (year % 100 ≠ 0 || year % 400 = 0)

def daysInMonth (year : Int) (month : Nat) : Nat :=
  if month = 2 then if isLeapYear year then 29 else 28
  else if month = 4 || month = 6 || month = 9 || month = 11 then 30
  else 31

namespace Date

/-- The day of a date. Years are counted from March, so that a leap day ends its year. -/
def toDay (date : Date) : Int :=
  let year := if date.month ≤ 2 then date.year - 1 else date.year
  let era := year / 400
  let yearOfEra := year % 400
  let month : Int := (date.month + 9) % 12
  let dayOfYear := (153 * month + 2) / 5 + date.day - 1
  let dayOfEra := yearOfEra * 365 + yearOfEra / 4 - yearOfEra / 100 + dayOfYear
  era * 146097 + dayOfEra - 719468

/-- The date of a day. -/
def ofDay (day : Int) : Date :=
  let day := day + 719468
  let era := day / 146097
  let dayOfEra := day % 146097
  let yearOfEra := (dayOfEra - dayOfEra / 1460 + dayOfEra / 36524 - dayOfEra / 146096) / 365
  let dayOfYear := dayOfEra - (365 * yearOfEra + yearOfEra / 4 - yearOfEra / 100)
  let month := (5 * dayOfYear + 2) / 153
  let dayOfMonth := dayOfYear - (153 * month + 2) / 5 + 1
  let monthNumber := if month < 10 then month + 3 else month - 9
  let year := yearOfEra + era * 400
  ⟨if monthNumber ≤ 2 then year + 1 else year, monthNumber.toNat, dayOfMonth.toNat⟩

def isValid (date : Date) : Bool :=
  1 ≤ date.month && date.month ≤ 12 && 1 ≤ date.day && date.day ≤ daysInMonth date.year date.month

end Date

/-- The years that points in time may fall into. -/
def inYears (year : Int) : Bool := -262143 ≤ year && year ≤ 262142

def date (time : Time) : Date := Date.ofDay (time.seconds / 86400)

/-- The seconds since the start of the day. -/
def secondOfDay (time : Time) : Nat := (time.seconds % 86400).toNat

/-- A point in time within the years that are allowed. -/
def inRange (time : Time) : Bool := inYears time.date.year

end Time
end SourceIndex
