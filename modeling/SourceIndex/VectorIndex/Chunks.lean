import SourceIndex.Chunk
import SourceIndex.Failure
import SourceIndex.VectorIndex.Filter

/-!
The chunks of repositories in a vector index. Chunks are stored and deleted in batches. All chunks of a
repository are deleted by listing the ids of its namespace, and, should that fail, by querying with the
filter of the repository until nothing is found. An index that says it is empty has nothing to delete
and nothing to find.
-/

namespace SourceIndex.VectorIndex

/-- How many records one call stores at most. -/
def upsertBatch : Nat := 100

/-- How many ids one call deletes at most. -/
def deleteBatch : Nat := 1000

/-- How many ids one page lists. -/
def pageSize : Nat := 1000

/-- How many matches one query of a deletion asks for. -/
def deleteTopK : Nat := 1000

/-- How many queries a deletion makes at most. -/
def maxRounds : Nat := 100

/-- A list in batches of a size, in at most `fuel` batches. -/
def batchesUpTo {α : Type} (size : Nat) : Nat → List α → List (List α)
  | 0, _ | _, [] => []
  | fuel + 1, items => items.take size :: batchesUpTo size fuel (items.drop size)

/-- A list in batches of a size; only the last one may be smaller. -/
def batches {α : Type} (size : Nat) (items : List α) : List (List α) :=
  batchesUpTo size items.length items

variable {σ : Type} (index : VectorIndex σ)

/-- The record of a chunk. -/
def recordOf (chunk : Chunk) : Record := ⟨chunk.id, chunk.data, chunk.metadata.toJson⟩

/-- Store batches of chunks one after the other, up to the first that fails. -/
def upsertBatches : List (List Chunk) → Action σ Unit
  | [] => pure ()
  | batch :: rest => do
    Action.during ("failed to upsert " ++ toString batch.length ++ " chunks")
      ((index.upsert (batch.map recordOf)).mapError .ofIndex)
    upsertBatches rest

def upsertChunks (chunks : List Chunk) : Action σ Unit :=
  upsertBatches index (batches upsertBatch chunks)

/-- Delete batches of ids one after the other, counting what was removed. -/
def deleteBatches : List (List String) → Step Error σ Nat
  | [] => pure 0
  | batch :: rest => do
    let count ← index.delete batch
    let later ← deleteBatches rest
    pure (count + later)

def deleteAll (ids : List String) : Step Error σ Nat :=
  deleteBatches index (batches deleteBatch ids)

/-- The ids that start with `start` on the pages from a cursor on, unless there are more than `fuel`
pages. -/
def listIds (start : String) : Nat → String → Step Error σ (Option (List String))
  | 0, _ => pure none
  | fuel + 1, cursor => do
    let page ← index.range ⟨cursor, pageSize, some start⟩
    let ids := page.ids.filter fun id => start.toList.isPrefixOf id.toList
    match page.next with
    | none => pure (some ids)
    | some next =>
      if next.isEmpty then pure (some ids)
      else
        let later ← listIds start fuel next
        pure (later.map (ids ++ ·))

/-- Delete the ids that start with `start`; absent if their pages do not end within `fuel`. -/
def deleteByStart (fuel : Nat) (start : String) : Step Error σ (Option Nat) := do
  match ← listIds index start fuel firstCursor with
  | none => pure none
  | some [] => pure (some 0)
  | some ids => some <$> deleteAll index ids

/-- The query whose matches a deletion removes. -/
def deletionQuery (repo user : String) : Query := ⟨repo, deleteTopK, some (Filter.scope repo user), false⟩

/-- Query and delete what is found, until nothing is found or removed, at most so many times. -/
def deleteRounds (request : Query) : Nat → Step Error σ Nat
  | 0 => pure 0
  | rounds + 1 => do
    let found ← index.query request
    if found.isEmpty then pure 0
    else
      let removed ← deleteAll index (found.map Match.id)
      if removed = 0 then pure 0
      else
        let later ← deleteRounds request rounds
        pure (removed + later)

/-- An index that is empty has removed nothing. -/
def noneIfEmpty (step : Step Error σ Nat) : Step Error σ Nat := do
  match ← step.attempt with
  | .ok count => pure count
  | .error .emptyIndex => pure 0
  | .error e => throw e

def deletionAttempt (repo : String) : String := "failed to delete chunks of " ++ repo

/-- Delete the given ids. -/
def deleteChunkIds (repo : String) (ids : List String) : Action σ Nat :=
  Action.during (deletionAttempt repo) ((noneIfEmpty (deleteAll index ids)).mapError .ofIndex)

/-- Delete every chunk of a repository of a user, following at most `fuel` pages of ids; the number
of chunks that were removed. -/
def deleteChunks (fuel : Nat) (repo user : String) : Action σ Nat := do
  match ← (deleteByStart index fuel (Chunk.idStart user repo)).attempt with
  | .ok (some count) => pure count
  | .ok none => throw ⟨[], .endless⟩
  | .error .emptyIndex => pure 0
  | .error _ =>
    Action.during (deletionAttempt repo)
      ((noneIfEmpty (deleteRounds index (deletionQuery repo user) maxRounds)).mapError .ofIndex)

/-- A match with the metadata of a chunk. -/
structure Hit where
  id : String
  score : Score
  metadata : Chunk.Metadata
  deriving DecidableEq, Repr

/-- The hit of a match, unless its metadata is missing or is not that of a chunk. -/
def Match.hit? (found : Match) : Option Hit :=
  (found.metadata.bind Chunk.Metadata.ofJson?).map fun metadata => ⟨found.id, found.score, metadata⟩

def searchQuery (text repo user : String) (topK : Nat) : Query :=
  ⟨text, topK, some (Filter.scope repo user), true⟩

/-- Search the chunks of one repository of one user. -/
def search (text repo user : String) (topK : Nat) : Action σ (List Hit) := do
  match ← (index.query (searchQuery text repo user topK)).attempt with
  | .ok found => pure (found.filterMap Match.hit?)
  | .error .emptyIndex => pure []
  | .error e => throw ((Failure.ofIndex e).during "vector search failed")

end SourceIndex.VectorIndex
