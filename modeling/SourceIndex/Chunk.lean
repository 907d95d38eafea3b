import SourceIndex.Chunk.Id
import SourceIndex.Chunk.Metadata
import SourceIndex.Path

/-!
Chunks: the records that the entities of a file are indexed as. Entities of one file that share kind
and name share an id, and the first of them is kept.
-/

namespace SourceIndex

structure Chunk where
  id : String
  /-- The text that is embedded. -/
  data : String
  metadata : Chunk.Metadata
  deriving DecidableEq, Repr

namespace Chunk

/-- Whose chunks are built, and from which branch. -/
structure Context where
  user : String
  repo : String
  branch : String
  deriving DecidableEq, Repr

/-- The address of a file on a branch. -/
def fileUrl (repo branch path : String) : String :=
  "https://github.com/" ++ repo ++ "/blob/" ++ branch ++ "/" ++ path

/-- The embedded text: where the entity stands, what it is and says, and its content. -/
def embedded (path : String) (entity : Entity) : String :=
  let parent := entity.parent.elim "" fun parent => "Class: " ++ parent ++ "\n"
  let doc := entity.doc.elim "" fun doc => doc ++ "\n"
  "File: " ++ path ++ "\n" ++ entity.kind.name ++ ": " ++ entity.name ++ "\n" ++ parent ++ doc ++
    "\n" ++ entity.content

/-- The id of an entity of a file. -/
def idOf (context : Context) (path : String) (entity : Entity) : String :=
  idFor context.user context.repo path entity.name entity.kind

def ofEntity (context : Context) (path : String) (entity : Entity) : Chunk where
  id := idOf context path entity
  data := embedded path entity
  metadata :=
    { repo := context.repo
      user := context.user
      path
      fileName := String.ofList (Path.fileName path.toList)
      url := fileUrl context.repo context.branch path
      kind := entity.kind
      name := entity.name
      startLine := entity.startLine
      endLine := entity.endLine
      content := entity.content
      doc := entity.doc
      imports := entity.imports
      exports := entity.exports
      parent := entity.parent
      calls := entity.calls }

/-- The chunks whose id is not among those seen, without later ones of an equal id. -/
def firstOfEach : List String → List Chunk → List Chunk
  | _, [] => []
  | seen, chunk :: rest =>
    if seen.contains chunk.id then firstOfEach seen rest
    else chunk :: firstOfEach (chunk.id :: seen) rest

/-- The chunks of a file's entities. -/
def build (context : Context) (path : String) (entities : List Entity) : List Chunk :=
  firstOfEach [] (entities.map (ofEntity context path))

end Chunk
end SourceIndex
