import SourceIndex.Text.Lines

/-!
Blocks in braces. Braces are counted line by line, passing over string literals and over the rest of a
line after two slashes; a literal never runs on to the next line. A block ends on the first line after
which the count is back at zero, or on a line that ends in a semicolon before any brace was opened.
-/

namespace SourceIndex.Braces
open Text

structure Count where
  opens : Nat
  closes : Nat
  deriving DecidableEq, Repr

namespace Count

/-- How far a line changes the depth. -/
def net (count : Count) : Int := count.opens - count.closes

end Count

/-- Where a line stands within a string literal. -/
inductive Quoting where
  | outside
  | inside (quote : Char)
  | escaped (quote : Char)

def isQuote (c : Char) : Bool := c = '"' || c = '\'' || c = '`'

/-- Count on, after the character `before`. -/
def countFrom : Quoting → Char → Chars → Count
  | _, _, [] => ⟨0, 0⟩
  | .escaped quote, _, c :: rest => countFrom (.inside quote) c rest
  | .inside quote, _, c :: rest =>
    if c = '\\' then countFrom (.escaped quote) c rest
    else if c = quote then countFrom .outside c rest
    else countFrom (.inside quote) c rest
  | .outside, before, c :: rest =>
    if isQuote c then countFrom (.inside c) c rest
    else if c = '/' && before = '/' then ⟨0, 0⟩
    else
      let later := countFrom .outside c rest
      if c = '{' then ⟨later.opens + 1, later.closes⟩
      else if c = '}' then ⟨later.opens, later.closes + 1⟩
      else later

/-- The braces of one line that count. -/
def count (line : Chars) : Count := countFrom .outside '\x00' line

/-- The depth before each line, from a given depth on. -/
def runningDepths : Int → List Chars → List Int
  | _, [] => []
  | depth, line :: rest => depth :: runningDepths (depth + (count line).net) rest

/-- The depth before each of the lines `start` to `stop`, zero at the first. -/
def depths (lines : List Chars) (start stop : Nat) : List Int :=
  runningDepths 0 ((lines.drop start).take (stop + 1 - start))

/-- The index of the line that ends the block, if one does, when the next line has index `i`. -/
def endFrom : Int → Bool → Nat → List Chars → Option Nat
  | _, _, _, [] => none
  | depth, opened, i, line :: rest =>
    let here := count line
    let opened := opened || 0 < here.opens
    let depth := depth + here.net
    if opened && depth ≤ 0 then some i
    else if !opened && (trimEnd line).getLast? = some ';' then some i
    else endFrom depth opened (i + 1) rest

/-- The index of the last line of the block that starts on line `start`; a block that nothing ends
runs to the last line. -/
def blockEnd (lines : List Chars) (start : Nat) : Nat :=
  (endFrom 0 false start (lines.drop start)).getD (max (lines.length - 1) start)

end SourceIndex.Braces
