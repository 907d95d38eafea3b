import SourceIndex.Text.Lines

/-!
Call targets: ASCII identifiers that stand before an opening bracket, with blanks between them at
most.
-/

namespace SourceIndex.Calls
open Text

/-- How many different targets are kept. -/
def limit : Nat := 50

/-- Keywords that look like calls. -/
def stopList : List Chars :=
  ["if", "for", "while", "switch", "catch", "function", "class"].map String.toList

/-- What a scan has read last. -/
inductive Reading where
  | nothing
  /-- Within an identifier, reversed. -/
  | name (reversed : Chars)
  /-- Blanks after an identifier. -/
  | gap (reversed : Chars)

def targetsFrom : Reading → Chars → List Chars
  | _, [] => []
  | .nothing, c :: rest => if isNameStart c then targetsFrom (.name [c]) rest else targetsFrom .nothing rest
  | .name reversed, c :: rest =>
    if isNamePart c then targetsFrom (.name (c :: reversed)) rest
    else if isBlank c then targetsFrom (.gap reversed) rest
    else if c = '(' then reversed.reverse :: targetsFrom .nothing rest
    else targetsFrom .nothing rest
  | .gap reversed, c :: rest =>
    if isBlank c then targetsFrom (.gap reversed) rest
    else if c = '(' then reversed.reverse :: targetsFrom .nothing rest
    else if isNameStart c then targetsFrom (.name [c]) rest
    else targetsFrom .nothing rest

/-- Every call target of a text, in order. -/
def targets (s : Chars) : List Chars := targetsFrom .nothing s

/-- The different targets of a text in order of first occurrence, without keywords and `skipped`. -/
def distinct (skipped : Option Chars) (s : Chars) : List Chars :=
  ((targets s).filter fun name => !stopList.contains name && skipped != some name).eraseDups.take
    limit

/-- The calls of a text that is no declaration. -/
def ofText (s : Chars) : List Chars := distinct none s

/-- The calls of the entity `own`: its declaration looks like a call too, so its own name counts only
from the second occurrence on. -/
def ofEntity (own s : Chars) : List Chars :=
  distinct (if (targets s).count own ≤ 1 then some own else none) s

end SourceIndex.Calls
