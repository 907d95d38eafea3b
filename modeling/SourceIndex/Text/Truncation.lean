import SourceIndex.Text.Utf8

/-!
Cutting a text to a budget of bytes. A cut prefers a structural boundary, the place before a line
feed or after a closing brace that starts a line, as long as half of the budget is kept; the marker is
appended after the cut and does not count.
-/

namespace SourceIndex.Text

/-- What a cut text ends with. -/
def truncationMarker : Chars := "\n... [truncated]".toList

/-- The longest beginning that takes at most `budget` bytes. -/
def takeBytes : Nat → Chars → Chars
  | _, [] => []
  | budget, c :: rest =>
    if c.utf8Size ≤ budget then c :: takeBytes (budget - c.utf8Size) rest else []

/-- The text up to its last structural boundary. -/
def upToBoundary? : Chars → Option Chars
  | [] => none
  | c :: rest =>
    match upToBoundary? rest with
    | some kept => some (c :: kept)
    | none =>
      if c = '\n' then some (if rest.head? = some '}' then ['\n', '}'] else []) else none

/-- The part of a text over the budget that a cut keeps. -/
def keptOf (budget : Nat) (s : Chars) : Chars :=
  let window := takeBytes budget s
  match upToBoundary? window with
  | some kept => if budget ≤ 2 * byteLength kept then kept else window
  | none => window

/-- The text itself within the budget, else the kept part and the marker. -/
def truncate (budget : Nat) (s : Chars) : Chars :=
  if byteLength s ≤ budget then s else keptOf budget s ++ truncationMarker

end SourceIndex.Text
