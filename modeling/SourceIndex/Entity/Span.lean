import SourceIndex.Entity
import SourceIndex.Entity.Calls
import SourceIndex.Entity.Symbols

/-!
From a declaration that was found in a file to its entity. A declaration is a span of lines with a
name; the entity's text, calls and exports follow from the lines and from the symbols of the file.
-/

namespace SourceIndex
open Text

/-- A declaration on lines `start` to `stop`, counted from 0. -/
structure Span where
  kind : EntityKind
  name : Chars
  start : Nat
  stop : Nat
  doc : Option Chars
  parent : Option Chars
  /-- The name to look for among the exports of the file; absent for members. -/
  exported : Option Chars
  deriving DecidableEq, Repr

namespace Span

/-- The name without the class it belongs to. -/
def ownName (span : Span) : Chars := (splitOn '.' span.name).getLastD []

def toEntity (lines : List Chars) (symbols : Symbols) (span : Span) : Entity :=
  let raw := Entity.textOf lines span.start span.stop
  { kind := span.kind
    name := String.ofList span.name
    startLine := span.start + 1
    endLine := span.stop + 1
    content := String.ofList (truncate (Entity.memberBudget span.kind) raw)
    imports := symbols.imports.map String.ofList
    exports := (span.exported.toList.filter symbols.exports.contains).map String.ofList
    parent := span.parent.map String.ofList
    calls := (Calls.ofEntity span.ownName raw).map String.ofList
    doc := span.doc.map String.ofList }

end Span
end SourceIndex
