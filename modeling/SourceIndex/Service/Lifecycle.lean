import SourceIndex.Service.Run

/-!
What the service does on request: accept a run for later, run at once, delete a repository and search
one. A run is only accepted when its key can be claimed, and it is given up when it does not end in
time.
-/

namespace SourceIndex.Service

variable {J R V : Type} (service : Service J R V)

/-- Reserve the key for a new run, unless a run holds it. -/
def claim (key : Job.Key) : Action (World J R V) (Option Job) := do
  let staleBefore ← service.staleBefore
  let now ← service.now
  World.onJobs (service.jobs.claim key (repoUrl key.repo) staleBefore now.seconds)

/-- Accept a run that is executed later; absent if another run holds the key. -/
def start (key : Job.Key) : Action (World J R V) (Option Job) := do
  let claimed ← service.claim key
  if claimed.isSome then
    modify fun world => { world with waiting := world.waiting ++ [key] }
  pure claimed

/-- What a run fails with that is given up. -/
def endedLate : Failure := .stated ("indexing timed out after " ++ toString service.timeout ++ "s")

/-- Run to the end, or give up on a run that has none. -/
def runInTime (key : Job.Key) : Action (World J R V) Summary := do
  match ← (service.run key).attempt with
  | .ok summary => pure summary
  | .error failure =>
    if failure.isEndless then
      service.recordFailure key service.endedLate
      throw service.endedLate
    else throw failure

/-- Execute the first run that waits; its outcome is only seen in its record. -/
def executeNext : Action (World J R V) Unit := do
  match (← get).waiting with
  | [] => pure ()
  | key :: rest =>
    modify fun world => { world with waiting := rest }
    let _ ← (service.runInTime key).attempt
    pure ()

/-- Claim the key and run at once. -/
def runNow (key : Job.Key) : Action (World J R V) Summary := do
  match ← service.claim key with
  | some _ => service.runInTime key
  | none => throw (.stated (key.repo ++ " is already being indexed"))

inductive Deletion where
  | deleted (chunks : Nat)
  | notFound
  | active
  deriving DecidableEq, Repr

/-- Delete the chunks of a repository and then its record, unless a run holds its key. -/
def delete (key : Job.Key) : Action (World J R V) Deletion := do
  match ← World.onJobs (service.jobs.get key) with
  | none => pure .notFound
  | some job =>
    let staleBefore ← service.staleBefore
    if job.holdsKey staleBefore then pure .active
    else
      let count ← World.onIndex
        (VectorIndex.deleteChunks service.index service.pageLimit key.repo key.user)
      let _ ← World.onJobs (service.jobs.delete key)
      pure (.deleted count)

/-- The hits of a search in one repository. -/
def search (text : String) (key : Job.Key) (topK : Nat) :
    Action (World J R V) (List VectorIndex.Hit) :=
  World.onIndex (VectorIndex.search service.index text key.repo key.user topK)

/-- The record of a key. -/
def job? (key : Job.Key) : Action (World J R V) (Option Job) :=
  World.onJobs (service.jobs.get key)

/-- The records of a user. -/
def jobsOf (user : String) : Action (World J R V) (List Job) := World.onJobs (service.jobs.list user)

end SourceIndex.Service
