import SourceIndex.Text.Truncation

/-!
Entities: the named parts of a source file that are indexed on their own, with the range of lines
they cover, counted from 1, their text within the budget of their kind, and what they mention.
-/

namespace SourceIndex
open Text

inductive EntityKind where
  | file
  | classDef
  | function
  | method
  | component
  deriving DecidableEq, Repr

namespace EntityKind

def name : EntityKind → String
  | .file => "file"
  | .classDef => "class"
  | .function => "function"
  | .method => "method"
  | .component => "component"

def all : List EntityKind := [.file, .classDef, .function, .method, .component]

def ofName? (s : String) : Option EntityKind := all.find? (·.name == s)

end EntityKind

structure Entity where
  kind : EntityKind
  name : String
  startLine : Nat
  endLine : Nat
  content : String
  imports : List String
  exports : List String
  parent : Option String
  calls : List String
  doc : Option String
  deriving DecidableEq, Repr

namespace Entity

/-- Lines `start` to `stop`, counted from 0, as one text; lines past the end are not there. -/
def textOf (lines : List Chars) (start stop : Nat) : Chars :=
  unlines ((lines.drop start).take (stop + 1 - start))

/-- The bytes kept of the first lines of a file. -/
def headerBudget : Nat := 2000

/-- The bytes kept of a file of moderate length. -/
def fullBudget : Nat := 4000

/-- The bytes kept of an entity inside a file. -/
def memberBudget : EntityKind → Nat
  | .classDef => 2500
  | _ => 1500

end Entity
end SourceIndex
