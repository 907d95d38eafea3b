import SourceIndex.Text.Lines

/-!
Docstrings. The comment above a declaration is looked for upwards, nearest line first: blank lines are
passed over, line comments are collected, and a block comment or a quoted block ends the search, as
does any other line. Inside a body the docstring is a quoted block that comes first. The comment marks
are taken off each line, and a text that is too short says nothing and is dropped.
-/

namespace SourceIndex.Docstring
open Text

/-- How many lines above a declaration are looked at. -/
def reach : Nat := 15

/-- How many lines above its end a block may start. -/
def blockReach : Nat := 20

/-- How many lines below its start a quoted block in a body may end. -/
def bodyReach : Nat := 20

/-- A text of at most this many characters is dropped. -/
def minLength : Nat := 10

/-- A longer text is cut to this many characters. -/
def maxLength : Nat := 500

def tripleQuotes : List Chars := ["\"\"\"".toList, "'''".toList]

def openingMarks : List Chars :=
  ["/**", "/*", "///", "//", "#", "\"\"\"", "'''"].map String.toList

def closingMarks : List Chars := ["*/", "\"\"\"", "'''"].map String.toList

/-- A comment line without its marks: one opening mark, one closing mark and one leading star. -/
def withoutMarks (line : Chars) : Chars :=
  let line := trim line
  let line := (openingMarks.findSome? (stripStart? · line)).getD line
  let line := (closingMarks.findSome? (stripEnd? · line)).getD line
  let line := trim line
  trim ((stripStart? ['*'] line).getD line)

/-- A text within the limits of a docstring, if it is long enough to be one. -/
def bounded? (text : Chars) : Option Chars :=
  if text.length ≤ minLength then none else some (text.take maxLength)

/-- The docstring that the lines of a comment hold. -/
def ofLines? (raw : List Chars) : Option Chars :=
  bounded? (trim (unlines ((raw.map withoutMarks).filter (!·.isEmpty))))

/-- The lines, given nearest first, up to the first one that opens a block, in the order of the file. -/
def blockUpTo? (opens : Chars → Bool) : List Chars → Option (List Chars)
  | [] => none
  | line :: above =>
    let line := trim line
    if opens line then some [line] else (blockUpTo? opens above).map (· ++ [line])

/-- The block comment whose last line is `line`, below the lines `above`, nearest first. -/
def commentBlock? (line : Chars) (above : List Chars) : Option (List Chars) :=
  blockUpTo? ("/*".toList.isPrefixOf ·) (line :: above.take blockReach)

/-- The quoted block that the trimmed line `line` ends. -/
def quotedBlock? (quote line : Chars) (above : List Chars) : Option (List Chars) :=
  if 6 ≤ line.length && quote.isPrefixOf line then some [line]
  else (blockUpTo? (containsText quote ·) (above.take blockReach)).map (· ++ [line])

def isLineComment (line : Chars) : Bool :=
  "//".toList.isPrefixOf line || ("#".toList.isPrefixOf line && !"#!".toList.isPrefixOf line)

/-- The comment lines that stand directly above, looking at no more than `n` of the lines given
nearest first, in the order of the file. -/
def commentAbove : Nat → List Chars → List Chars
  | 0, _ | _, [] => []
  | n + 1, line :: above =>
    let line := trim line
    if line.isEmpty then commentAbove n above
    else if "*/".toList.isSuffixOf line then (commentBlock? line above).getD []
    else
      match tripleQuotes.find? (·.isSuffixOf line) with
      | some quote => (quotedBlock? quote line above).getD []
      | none => if isLineComment line then commentAbove n above ++ [line] else []

/-- The docstring above the declaration on line `start`. -/
def before? (lines : List Chars) (start : Nat) : Option Chars :=
  let floor := start - reach
  ofLines? (commentAbove (min start lines.length - floor) (lines.take start).reverse)

/-- The lines up to and including the first one that holds `quote`. -/
def linesToQuote? (quote : Chars) : List Chars → Option (List Chars)
  | [] => none
  | line :: rest =>
    if containsText quote line then some [line] else (linesToQuote? quote rest).map (line :: ·)

/-- The docstring at the start of the body whose header ends on line `header`. -/
def inBody? (lines : List Chars) (header : Nat) : Option Chars :=
  match (lines.drop (header + 1)).dropWhile isBlankText with
  | [] => none
  | first :: rest =>
    let line := trim first
    match tripleQuotes.find? (·.isPrefixOf line) with
    | none => none
    | some quote =>
      if containsText quote (line.drop 3) then ofLines? [line]
      else
        match linesToQuote? quote (rest.take bodyReach) with
        | some block => ofLines? (line :: block.map trim)
        | none => none

end SourceIndex.Docstring
