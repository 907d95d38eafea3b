import SourceIndex.Job.Store

/-!
The job store that is kept in a table of a database. A row holds plain column values: counters are
signed words of 64 bits, times are whole seconds, and the status is its name. Reading a row brings its
values into their ranges. If the table is gone, every operation fails.
-/

namespace SourceIndex.Job

structure Row where
  key : Key
  url : String
  branch : String
  status : String
  progress : Int
  totalFiles : Int
  indexedFiles : Int
  error : Option String
  lastIndexed : Option Int
  updatedAt : Int
  deriving DecidableEq, Repr

/-- A number as a signed word of 64 bits; large ones wrap around. -/
def toColumn (n : Nat) : Int := Int.bmod n (Nat.pow 2 64)

/-- A time of whole seconds, if it falls into the years that are allowed. -/
def timeOfColumn (seconds : Int) : Option Time :=
  let time : Time := ⟨seconds, 0⟩
  if time.inRange then some time else none

namespace Row

/-- A new row. -/
def fresh (key : Key) (url : String) (status : Status) (now : Int) : Row :=
  ⟨key, url, "", status.name, 0, 0, 0, none, none, now⟩

/-- Back to the start of a run. -/
def reset (row : Row) (url : String) (status : Status) (now : Int) : Row :=
  { row with
    url
    status := status.name
    progress := 0
    totalFiles := 0
    indexedFiles := 0
    error := none
    updatedAt := now }

def apply (row : Row) (update : Update) (now : Int) : Row :=
  { row with
    status := (update.status.map Status.name).getD row.status
    progress := (update.progress.map Int.ofNat).getD row.progress
    branch := update.branch.getD row.branch
    url := update.url.getD row.url
    totalFiles := (update.totalFiles.map toColumn).getD row.totalFiles
    indexedFiles := (update.indexedFiles.map toColumn).getD row.indexedFiles
    error := update.error <|> row.error
    lastIndexed := update.lastIndexed.map Time.seconds <|> row.lastIndexed
    updatedAt := now }

/-- A claim may take over the row: its run is over, or its last write is too old. -/
def isFree (row : Row) (staleBefore : Int) : Bool :=
  row.status == Status.completed.name || row.status == Status.failed.name ||
    row.updatedAt < staleBefore

/-- The record that a row holds. -/
def toJob (row : Row) : Except Failure Job :=
  match Status.ofName? row.status with
  | none => .error (.stated (Status.unknownMessage row.status))
  | some status =>
    .ok
      { key := row.key
        url := row.url
        branch := row.branch
        status
        progress := (min (max row.progress 0) 100).toNat
        totalFiles := row.totalFiles.toNat
        indexedFiles := row.indexedFiles.toNat
        error := row.error
        lastIndexed := row.lastIndexed.bind timeOfColumn
        updatedAt := row.updatedAt }

end Row

structure Table where
  /-- Sorted by key, each key once. -/
  rows : List Row
  /-- The table is gone. -/
  gone : Bool
  deriving DecidableEq, Repr

namespace Table

def empty : Table := ⟨[], false⟩

def get? (table : Table) (key : Key) : Option Row := findBy Row.key key table.rows

def put (row : Row) (table : Table) : Table := { table with rows := putBy Row.key row table.rows }

/-- The table, if it is there. -/
def openTable : Action Table Table := do
  let table ← get
  if table.gone then throw (.missingTable "indexed_repositories") else pure table

/-- The record of a key. -/
def fetch (key : Key) : Action Table (Option Job) := do
  match (← openTable).get? key with
  | none => pure none
  | some row => some <$> liftExcept row.toJob

/-- The record of a key that was just written. -/
def fetchWritten (key : Key) : Action Table Job := do
  match ← fetch key with
  | some job => pure job
  | none => throw (.stated ("index job for " ++ key.repo ++ " vanished"))

def claim (key : Key) (url : String) (staleBefore now : Int) : Action Table (Option Job) := do
  match (← openTable).get? key with
  | none =>
    modify (put (.fresh key url .pending now))
    some <$> fetchWritten key
  | some row =>
    if row.isFree staleBefore then
      modify (put (row.reset url .pending now))
      some <$> fetchWritten key
    else pure none

def startRun (key : Key) (url : String) (now : Int) : Action Table Job := do
  match (← openTable).get? key with
  | none => modify (put (.fresh key url .cloning now))
  | some row => modify (put (row.reset url .cloning now))
  fetchWritten key

def update (key : Key) (update : Update) (now : Int) : Action Table Unit := do
  match (← openTable).get? key with
  | none => throw (JobStore.missing key)
  | some row => modify (put (row.apply update now))

def list (user : String) : Action Table (List Job) := do
  let table ← openTable
  liftExcept ((table.rows.filter (·.key.user == user)).mapM Row.toJob)

def delete (key : Key) : Action Table Bool := do
  let table ← openTable
  set { table with rows := removeBy Row.key key table.rows }
  pure (table.get? key).isSome

def store : JobStore Table := ⟨claim, startRun, update, fetch, list, delete⟩

end Table
end SourceIndex.Job
