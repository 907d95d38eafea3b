import SourceIndex.Archive.Contents
import SourceIndex.Chunk
import SourceIndex.Service
import SourceIndex.VectorIndex.Chunks

/-!
One indexing run: find the token and the default branch, download and unpack the archive, delete the
chunks that are stored, build new ones and store them. Each step writes a checkpoint to the job record,
and a failure is written there too.
-/

namespace SourceIndex.Service

/-- The outcome of a run that came to its end. -/
structure Summary where
  branch : String
  files : Nat
  failedFiles : Nat
  chunks : Nat
  deletedChunks : Nat
  deriving DecidableEq, Repr

/-- A checkpoint is written after so many files. -/
def checkpointFiles : Nat := 50

/-- The share `done / total` of a span after its start; all of it if there is nothing to do. -/
def percentAt (start span done total : Nat) : Nat :=
  if total = 0 then start + span else start + span * min done total / total

variable {J R V : Type} (service : Service J R V)

/-- An update as it is written: the percentage neither falls nor exceeds a hundred. -/
def checkpoint (event : Progress.Event) (update : Job.Update) : Job.Update :=
  { update with progress := update.progress.map fun percent => min (max percent event.percent) 100 }

/-- The state of the run after an update. -/
def advanced (event : Progress.Event) (update : Job.Update) : Progress.Event :=
  { event with
    percent := update.progress.getD event.percent
    status := update.status.getD event.status
    totalFiles := update.totalFiles.getD event.totalFiles
    indexedFiles := update.indexedFiles.getD event.indexedFiles }

/-- Write a checkpoint and report it. -/
def advance (key : Job.Key) (event : Progress.Event) (update : Job.Update) :
    Action (World J R V) Progress.Event := do
  let update := checkpoint event update
  Action.during "Failed to record indexing progress" (service.updateJob key update)
  let event := advanced event update
  World.report event
  pure event

/-- What was made of some files. -/
structure Extraction where
  chunks : List Chunk
  failedFiles : Nat

/-- The chunks of a file, and whether its entities could not be found. -/
def extraction (context : Chunk.Context) (path text : String) : Extraction :=
  match service.catalog.entities text path with
  | .ok entities => ⟨Chunk.build context path entities, 0⟩
  | .error _ => ⟨[], 1⟩

/-- The chunks of the files that follow `done` others. -/
def extractions (key : Job.Key) (context : Chunk.Context) (total : Nat) :
    Nat → Progress.Event → List (String × String) →
      Action (World J R V) (Extraction × Progress.Event)
  | _, event, [] => pure (⟨[], 0⟩, event)
  | done, event, (path, text) :: rest => do
    let found := service.extraction context path text
    let done := done + 1
    let event ←
      if done % checkpointFiles = 0 && done < total then
        service.advance key event
          { Job.Update.none with
            progress := some (percentAt 25 50 done total), indexedFiles := some done }
      else pure event
    let (later, event) ← extractions key context total done event rest
    pure (⟨found.chunks ++ later.chunks, found.failedFiles + later.failedFiles⟩, event)

/-- Store batches of chunks after `done` stored ones. -/
def storeBatches (key : Job.Key) (total : Nat) :
    Nat → Progress.Event → List (List Chunk) → Action (World J R V) Progress.Event
  | _, event, [] => pure event
  | done, event, batch :: rest => do
    Action.during ("Failed to store chunks of " ++ key.repo)
      (World.onIndex (VectorIndex.upsertChunks service.index batch))
    let done := done + batch.length
    let event ← service.advance key event
      { Job.Update.none with progress := some (percentAt 80 18 done total) }
    storeBatches key total done event rest

/-- The token of a user. -/
def userToken (user : String) : Action (World J R V) String := do
  let found ← Action.during "Failed to look up GitHub credential"
    (World.onHost (service.host.token user))
  match found with
  | some token => pure token
  | none => throw (.stated ("No GitHub credential stored for user " ++ user))

/-- The parts of a repository name. -/
def repoName (repo : String) : Action (World J R V) RepoName :=
  match RepoName.ofFullName? repo with
  | some name => pure name
  | none => throw (.stated ("Invalid repository name '" ++ repo ++ "', expected owner/repo"))

/-- The steps of a run after its start. -/
def runSteps (key : Job.Key) (event : Progress.Event) : Action (World J R V) Summary := do
  let name ← repoName key.repo
  let token ← service.userToken key.user
  let branch ← Action.during ("Failed to resolve default branch of " ++ key.repo)
    (World.onHost (service.host.defaultBranch name token))
  let event ← service.advance key event
    { Job.Update.none with
      progress := some 5, branch := some branch, url := some (repoUrl key.repo) }
  let archive ← Action.during ("Failed to download " ++ key.repo ++ "@" ++ branch)
    (World.onHost (service.host.download name branch token))
  let event ← service.advance key event
    { Job.Update.none with status := some .parsing, progress := some 15 }
  let contents ← Action.during ("Failed to unpack " ++ key.repo)
    (liftExcept (Archive.Contents.read service.filter archive))
  let total := contents.files.length
  let event ← service.advance key event
    { Job.Update.none with status := some .indexing, totalFiles := some total, progress := some 25 }
  let deleted ← World.onIndex
    (VectorIndex.deleteChunks service.index service.pageLimit key.repo key.user)
  let (found, event) ←
    service.extractions key ⟨key.user, key.repo, branch⟩ total 0 event contents.files
  let event ← service.advance key event
    { Job.Update.none with progress := some 80, indexedFiles := some total }
  let event ← service.storeBatches key found.chunks.length 0 event
    (VectorIndex.batches VectorIndex.upsertBatch found.chunks)
  let now ← service.now
  let _ ← service.advance key event
    { Job.Update.none with
      status := some .completed, progress := some 100, lastIndexed := some now }
  pure ⟨branch, total, found.failedFiles, found.chunks.length, deleted⟩

/-- Write to the record that its run has failed; if even this fails, nothing more can be done. -/
def recordFailure (key : Job.Key) (failure : Failure) : Action (World J R V) Unit := do
  let _ ← (service.updateJob key (.failed failure.text)).attempt
  pure ()

/-- The first checkpoint of a run. -/
def firstEvent (repo : String) : Progress.Event := ⟨repo, .cloning, 0, 0, 0⟩

/-- Index a repository for a user. A run that never ends does not get to record its failure. -/
def run (key : Job.Key) : Action (World J R V) Summary := do
  let now ← service.now
  let _ ← Action.during ("Failed to start index job for " ++ key.repo)
    (World.onJobs (service.jobs.startRun key (repoUrl key.repo) now.seconds))
  let event := firstEvent key.repo
  World.report event
  match ← (service.runSteps key event).attempt with
  | .ok summary => pure summary
  | .error failure =>
    if !failure.isEndless then service.recordFailure key failure
    throw failure

end SourceIndex.Service
