import SourceIndex.Text.Lines

/-!
Paths with `/` between their components.
-/

namespace SourceIndex.Path
open Text

def components (path : Chars) : List Chars := splitOn '/' path

/-- The last component. -/
def fileName (path : Chars) : Chars := (components path).getLastD []

/-- What follows the last dot of the file name, in lower case; empty if there is no dot or nothing
before it. -/
def extension (path : Chars) : Chars :=
  let name := fileName path
  let ending := (splitOn '.' name).getLastD []
  let stemLength := name.length - ending.length - 1
  if ending.length < name.length && 0 < stemLength then asciiLower ending else []

end SourceIndex.Path
