import SourceIndex.Text.Lines

/-!
Readers of texts: a reader takes a value off the front of a text, or refuses it.
-/

namespace SourceIndex.Text

/-- A value off the front of a text, and the text after it. -/
abbrev Reader (α : Type) := Chars → Option (α × Chars)

end SourceIndex.Text
