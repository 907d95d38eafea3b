import SourceIndex.Step
import SourceIndex.VectorIndex.Score

/-!
Vector indexes: stores of records that embed the text of each record themselves, search by text under
a filter over the metadata, and list ids by their beginning. An index is given by its four operations
on some state, so whatever holds for every index holds for every behaviour of a remote one.
-/

namespace SourceIndex

namespace VectorIndex

inductive Error where
  /-- The index holds no vectors yet. -/
  | emptyIndex
  | api (status : Nat) (message : String)
  | transport (message : String)
  | decode (message : String)
  deriving DecidableEq, Repr

def Error.message : Error → String
  | .emptyIndex => "vector index is empty"
  | .api status message => "vector index returned " ++ toString status ++ ": " ++ message
  | .transport message => "vector index request failed: " ++ message
  | .decode message => "could not decode vector index response: " ++ message

structure Record where
  id : String
  /-- The text that the index embeds. -/
  data : String
  metadata : Json

structure Query where
  data : String
  topK : Nat
  filter : Option String
  includeMetadata : Bool
  deriving DecidableEq, Repr

structure Match where
  id : String
  score : Score
  metadata : Option Json

structure Range where
  cursor : String
  limit : Nat
  /-- What the listed ids start with. -/
  start : Option String
  deriving DecidableEq, Repr

/-- Some ids, and where the next page starts if there is one. -/
structure Page where
  ids : List String
  next : Option String
  deriving DecidableEq, Repr

/-- The cursor of the first page. -/
def firstCursor : String := "0"

end VectorIndex

structure VectorIndex (σ : Type) where
  upsert : List VectorIndex.Record → Step VectorIndex.Error σ Unit
  query : VectorIndex.Query → Step VectorIndex.Error σ (List VectorIndex.Match)
  /-- The number of ids that were removed. -/
  delete : List String → Step VectorIndex.Error σ Nat
  range : VectorIndex.Range → Step VectorIndex.Error σ VectorIndex.Page

/-- An index on a part of a larger state. -/
def VectorIndex.within {σ τ : Type} (get : σ → τ) (set : τ → σ → σ) (index : VectorIndex τ) :
    VectorIndex σ where
  upsert records := (index.upsert records).within get set
  query request := (index.query request).within get set
  delete ids := (index.delete ids).within get set
  range request := (index.range request).within get set

end SourceIndex
