import SourceIndex.Entity.Notebook

/-!
The catalog of extractors. Each extractor serves some file extensions; of those that serve the
extension of a file the one added last is asked, and a file that none serves is read as a source file.
-/

namespace SourceIndex
open Text

/-- A way to find the entities of a file, which may fail with a message. -/
structure Extractor where
  serves : Chars → Bool
  extract : Chars → Chars → Except String (List Entity)

namespace Extractor

/-- A notebook that cannot be read has no entities. -/
def notebooks : Extractor where
  serves ext := ext == "ipynb".toList
  extract content path := .ok (((Notebook.read? content).map (·.entities path)).getD [])

end Extractor

/-- Extractors, the one added last first. -/
abbrev Catalog := List Extractor

namespace Catalog

/-- The catalog that knows notebooks. -/
def standard : Catalog := [Extractor.notebooks]

def add (catalog : Catalog) (extractor : Extractor) : Catalog := extractor :: catalog

/-- The entities of a file. -/
def entities (catalog : Catalog) (content path : String) : Except String (List Entity) :=
  let path := path.toList
  match catalog.find? (·.serves (Path.extension path)) with
  | some extractor => extractor.extract content.toList path
  | none => .ok (SourceFile.entities content.toList path)

end Catalog
end SourceIndex
