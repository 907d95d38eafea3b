import SourceIndex.Text.Lowercase
import SourceIndex.VectorIndex
import SourceIndex.VectorIndex.Filter

/-!
The index that is kept within the process. Records are sorted by id; a match is scored by the share of
the words of the query that occur in its text. Every call is logged, and the next call of a kind can be
made to fail once.
-/

namespace SourceIndex.VectorIndex
open Text

/-- A call that an index received: how many records or ids, or which filter or beginning. -/
inductive Call where
  | upsert (count : Nat)
  | query (filter : Option String)
  | delete (count : Nat)
  | range (start : Option String)
  deriving DecidableEq, Repr

/-- Errors that the next call of each kind fails with. -/
structure Failures where
  upsert : Option Error
  query : Option Error
  delete : Option Error
  range : Option Error
  deriving DecidableEq, Repr

/-- No call fails. -/
def Failures.none : Failures := ⟨.none, .none, .none, .none⟩

structure Local where
  /-- Sorted by id, each id once. -/
  records : List Record
  /-- In order. -/
  calls : List Call
  failures : Failures

namespace Local

def empty : Local := ⟨[], [], .none⟩

/-- Put a record into a sorted list, in place of one of the same id. -/
def insert (record : Record) : List Record → List Record
  | [] => [record]
  | r :: rest =>
    if record.id < r.id then record :: r :: rest
    else if record.id = r.id then record :: rest
    else r :: insert record rest

def insertAll (stored records : List Record) : List Record :=
  records.foldl (fun stored record => insert record stored) stored

def get? (index : Local) (id : String) : Option Record := index.records.find? (·.id == id)

/-- The records whose metadata field holds a text. -/
def withField (index : Local) (field value : String) : List Record :=
  index.records.filter fun record => record.metadata.stringField? field == some value

/-- The share of the terms that occur in a text, in any case. -/
def overlap (terms : List Chars) (data : String) : Score :=
  let text := lowercase data.toList
  .ofRatio (terms.countP fun term => containsText term text) terms.length

/-- The matches of the records that satisfy the clauses, best first and otherwise by id. -/
def matchesOf (records : List Record) (clauses : List Filter.Clause) (request : Query) : List Match :=
  let terms := words (lowercase request.data.toList)
  let found := (records.filter fun record => Filter.holds clauses record.metadata).map fun record =>
    { id := record.id
      score := overlap terms record.data
      metadata := if request.includeMetadata then some record.metadata else none : Match }
  (found.mergeSort fun a b => b.score.le a.score).take request.topK

/-- Remove ids one after the other, counting those that were there. -/
def remove : List String → List Record → Nat × List Record
  | [], records => (0, records)
  | id :: rest, records =>
    if records.any (·.id == id) then
      let (count, records) := remove rest (records.filter (·.id != id))
      (count + 1, records)
    else remove rest records

/-- The page of ids that starts at an offset among the ids with the wanted beginning. -/
def pageAt (ids : List String) (offset limit : Nat) : Page :=
  let stop := min (offset + limit) ids.length
  ⟨(ids.take stop).drop offset, if stop < ids.length then some (toString stop) else none⟩

def idsFrom (records : List Record) (start : Option String) : List String :=
  (records.map Record.id).filter fun id =>
    match start with
    | some start => start.toList.isPrefixOf id.toList
    | none => true

/-- Log a call, and fail if a failure waits for it. -/
def enter (call : Call) (waiting : Failures → Option Error) (clear : Failures → Failures) :
    Step Error Local Unit := do
  let index ← get
  set { index with calls := index.calls ++ [call] }
  match waiting index.failures with
  | some e =>
    modify fun index => { index with failures := clear index.failures }
    throw e
  | none => pure ()

def upsert (records : List Record) : Step Error Local Unit := do
  enter (.upsert records.length) (·.upsert) ({ · with upsert := none })
  modify fun index => { index with records := insertAll index.records records }

def query (request : Query) : Step Error Local (List Match) := do
  enter (.query request.filter) (·.query) ({ · with query := none })
  let clauses ← match request.filter with
    | none => pure []
    | some filter =>
      match Filter.parse? filter with
      | some clauses => pure clauses
      | none => throw (.api 400 ("unsupported filter: " ++ filter))
  let index ← get
  pure (matchesOf index.records clauses request)

def delete (ids : List String) : Step Error Local Nat := do
  enter (.delete ids.length) (·.delete) ({ · with delete := none })
  let index ← get
  let (count, records) := remove ids index.records
  set { index with records := records }
  pure count

/-- A cursor is the offset of a page in decimal digits. -/
def range (request : Range) : Step Error Local Page := do
  enter (.range request.start) (·.range) ({ · with range := none })
  match parseNat? maxWord64 request.cursor.toList with
  | none => throw (.api 400 ("invalid cursor '" ++ request.cursor ++ "'"))
  | some offset =>
    let index ← get
    pure (pageAt (idsFrom index.records request.start) offset request.limit)

/-- The process-local index. -/
def index : VectorIndex Local := ⟨upsert, query, delete, range⟩

end Local
end SourceIndex.VectorIndex
