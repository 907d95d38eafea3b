import SourceIndex.Entity.Python
import SourceIndex.Entity.Script

/-!
The entities of a source file: one for its first lines, one for the whole of a file of moderate
length, and one for each declaration of the languages that are searched for them.
-/

namespace SourceIndex.SourceFile
open Text

/-- How many lines the header entity covers at most. -/
def headerLines : Nat := 50

/-- A longer file has no entity for its whole text. -/
def fullLines : Nat := 150

/-- The entity of the first `count` lines, which belongs to the file as such. -/
def topOf (name : Chars) (lines : List Chars) (count budget : Nat) (symbols : Symbols) :
    Entity :=
  let stop := min lines.length count
  { kind := .file
    name := String.ofList name
    startLine := 1
    endLine := max stop 1
    content := String.ofList (truncate budget (Entity.textOf lines 0 (stop - 1)))
    imports := symbols.imports.map String.ofList
    exports := symbols.exports.map String.ofList
    parent := none
    calls := []
    doc := none }

/-- The declarations of a text in the given language. -/
def declarations (lines : List Chars) (language : Language) (withComponents : Bool) : List Span :=
  match language with
  | .script => Script.spans lines withComponents
  | .python => Python.spans lines
  | .other => []

def entities (content path : Chars) : List Entity :=
  let ext := Path.extension path
  let language := Language.ofExtension ext
  let ls := lines content
  let symbols := Symbols.ofText content language
  let name := Path.fileName path
  let header := topOf name ls headerLines Entity.headerBudget symbols
  let full :=
    if headerLines < ls.length && ls.length ≤ fullLines then
      [topOf (name ++ ":full".toList) ls ls.length Entity.fullBudget symbols]
    else []
  header :: full ++
    (declarations ls language (Language.hasComponents ext)).map (·.toEntity ls symbols)

end SourceIndex.SourceFile
