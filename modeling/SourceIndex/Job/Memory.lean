import SourceIndex.Job.Store

/-!
The job store that is kept in memory, with the history of the updates it has applied; the start of a
run is in the history as an update too.
-/

namespace SourceIndex.Job

structure Memory where
  /-- Sorted by key, each key once. -/
  jobs : List Job
  /-- In order. -/
  history : List Update
  deriving DecidableEq, Repr

namespace Memory

def empty : Memory := ⟨[], []⟩

def get? (memory : Memory) (key : Key) : Option Job := findBy Job.key key memory.jobs

def put (job : Job) (memory : Memory) : Memory :=
  { memory with jobs := putBy Job.key job memory.jobs }

def record (update : Update) (memory : Memory) : Memory :=
  { memory with history := memory.history ++ [update] }

def claim (key : Key) (url : String) (staleBefore now : Int) : Action Memory (Option Job) := do
  match (← get).get? key with
  | some job =>
    if job.holdsKey staleBefore then pure none
    else
      let job := job.reset .pending url now
      modify (put job)
      pure (some job)
  | none =>
    let job := Job.fresh key url now
    modify (put job)
    pure (some job)

/-- The start of a run as an update. -/
def startUpdate (url : String) : Update :=
  { Update.none with status := some .cloning, progress := some 0, url := some url }

def startRun (key : Key) (url : String) (now : Int) : Action Memory Job := do
  let job := (((← get).get? key).getD (Job.fresh key url now)).reset .cloning url now
  modify (put job)
  modify (record (startUpdate url))
  pure job

def update (key : Key) (update : Update) (now : Int) : Action Memory Unit := do
  match (← get).get? key with
  | none => throw (JobStore.missing key)
  | some job =>
    modify (put (job.apply update now))
    modify (record update)

def delete (key : Key) : Action Memory Bool := do
  let memory ← get
  set { memory with jobs := removeBy Job.key key memory.jobs }
  pure (memory.get? key).isSome

def store : JobStore Memory where
  claim := claim
  startRun := startRun
  update := update
  get key := do pure ((← get).get? key)
  list user := do pure ((← get).jobs.filter (·.key.user == user))
  delete := delete

end Memory
end SourceIndex.Job
