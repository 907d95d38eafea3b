import SourceIndex.Text.Lines

/-!
Blocks by indentation. A block is headed by a line that may go on over open brackets, and its body is
what is indented further than that line; blank lines and lines that hold only a comment neither
belong to the body nor end it.
-/

namespace SourceIndex.Indentation
open Text

/-- The width of the leading blanks; a tab counts as four columns. -/
def indent (line : Chars) : Nat :=
  (line.takeWhile isBlank).foldr (fun c width => (if c = '\t' then 4 else 1) + width) 0

/-- A line with code: neither blank nor only a comment. -/
def isCode (line : Chars) : Bool :=
  match trim line with
  | [] => false
  | c :: _ => c != '#'

/-- Opening brackets less closing ones. -/
def bracketNet (line : Chars) : Int :=
  line.foldl (fun net c =>
    if c = '(' || c = '[' then net + 1 else if c = ')' || c = ']' then net - 1 else net) 0

/-- The index of the first line after which no bracket is open, when the next line has index `i`. -/
def headerEndFrom : Int → Nat → List Chars → Option Nat
  | _, _, [] => none
  | net, i, line :: rest =>
    let net := net + bracketNet line
    if net ≤ 0 then some i else headerEndFrom net (i + 1) rest

/-- The index of the last line of the header that starts on line `start`. -/
def headerEnd (lines : List Chars) (start : Nat) : Nat :=
  (headerEndFrom 0 start (lines.drop start)).getD (max (lines.length - 1) start)

/-- The index of the last code line before one that is indented by `base` or less, when the next line
has index `i`; `last` if there is none. -/
def blockEndFrom (base last : Nat) : Nat → List Chars → Nat
  | _, [] => last
  | i, line :: rest =>
    if !isCode line then blockEndFrom base last (i + 1) rest
    else if indent line ≤ base then last
    else blockEndFrom base i (i + 1) rest

/-- The index of the last line of the block headed on line `start`. -/
def blockEnd (lines : List Chars) (start : Nat) : Nat :=
  let base := (lines[start]?.map indent).getD 0
  let header := headerEnd lines start
  blockEndFrom base header (header + 1) (lines.drop (header + 1))

/-- The indent of the first code line of the body that ends on line `stop`. -/
def innerIndent (lines : List Chars) (start stop : Nat) : Option Nat :=
  let first := headerEnd lines start + 1
  (((lines.take (stop + 1)).drop first).find? isCode).map indent

end SourceIndex.Indentation
