import SourceIndex.Text.CharTables

/-!
Classes of characters. ASCII characters are decided without the tables, so closed instances of the
scanners over ASCII text evaluate quickly. Blank means the property White Space throughout the
project, for trimming as well as inside patterns.
-/

namespace SourceIndex.Text

/-- The property White Space. -/
def isBlank (c : Char) : Bool :=
  let n := c.toNat
  if n < 128 then n = 32 || (9 ≤ n && n ≤ 13)
  else n = 0x85 || n = 0xA0 || n = 0x1680 || (0x2000 ≤ n && n ≤ 0x200A) || n = 0x2028 ||
    n = 0x2029 || n = 0x202F || n = 0x205F || n = 0x3000

/-- Control characters: the general category Control. -/
def isControl (c : Char) : Bool :=
  let n := c.toNat
  n < 32 || (127 ≤ n && n < 160)

def isAsciiLetter (c : Char) : Bool :=
  c.isUpper || c.isLower

def isAsciiAlphanumeric (c : Char) : Bool :=
  isAsciiLetter c || c.isDigit

/-- A character of a word: a letter, mark, decimal digit, connector or joiner. -/
def isWord (c : Char) : Bool :=
  if c.toNat < 128 then isAsciiAlphanumeric c || c = '_'
  else alphabeticTable.holds c || markTable.holds c || decimalDigitTable.holds c ||
    connectorTable.holds c || c.toNat = 0x200C || c.toNat = 0x200D

/-- A letter or a number of any script. -/
def isAlphanumeric (c : Char) : Bool :=
  if c.toNat < 128 then isAsciiAlphanumeric c
  else alphabeticTable.holds c || numberTable.holds c

/-- The first character of an identifier. -/
def isNameStart (c : Char) : Bool :=
  isAsciiLetter c || c = '_' || c = '$'

/-- A later character of an ASCII identifier. -/
def isNamePart (c : Char) : Bool :=
  isAsciiAlphanumeric c || c = '_' || c = '$'

def isHexDigit (c : Char) : Bool :=
  c.isDigit || ('a' ≤ c && c ≤ 'f') || ('A' ≤ c && c ≤ 'F')

/-- The value of a hexadecimal digit. -/
def hexValue? (c : Char) : Option Nat :=
  if c.isDigit then some (c.toNat - '0'.toNat)
  else if 'a' ≤ c && c ≤ 'f' then some (c.toNat - 'a'.toNat + 10)
  else if 'A' ≤ c && c ≤ 'F' then some (c.toNat - 'A'.toNat + 10)
  else none

/-- The lower-case hexadecimal digit of a number below 16. -/
def hexDigit (n : Nat) : Char :=
  if n < 10 then Char.ofNat ('0'.toNat + n) else Char.ofNat ('a'.toNat + (n - 10))

end SourceIndex.Text
