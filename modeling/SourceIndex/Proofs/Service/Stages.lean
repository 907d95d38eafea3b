import SourceIndex.Proofs.Archive.Gzip
import SourceIndex.Proofs.Chunk.Ids
import SourceIndex.Proofs.Job.Records
import SourceIndex.Service.Run
import SourceIndex.VectorIndex.Local

/-! The stages of a run. A run first reads everything it needs from the host and then rebuilds the
chunks of its repository; each stage ends with the checkpoint that opens the next one. All that a run
writes aside from chunks goes to the job record of its own key, so the collaborators and the records of
other keys stay as they are between the steps that address them. -/

namespace SourceIndex.Service
open Step

/-! ### Checkpoints -/

section Updates
open Job

/-- The branch is known. -/
def branchFound (branch url : String) : Update :=
  { Update.none with progress := some 5, branch := some branch, url := some url }

/-- The archive was downloaded. -/
def downloaded : Update := { Update.none with status := some .parsing, progress := some 15 }

/-- The archive was unpacked. -/
def unpacked (total : Nat) : Update :=
  { Update.none with status := some .indexing, totalFiles := some total, progress := some 25 }

/-- The entities of some of the files were looked for. -/
def filesDone (total done : Nat) : Update :=
  { Update.none with progress := some (percentAt 25 50 done total), indexedFiles := some done }

/-- The entities of all files were looked for. -/
def allFilesDone (total : Nat) : Update :=
  { Update.none with progress := some 80, indexedFiles := some total }

/-- Some of the chunks were stored. -/
def chunksStored (total done : Nat) : Update :=
  { Update.none with progress := some (percentAt 80 18 done total) }

def finished (time : Time) : Update :=
  { Update.none with status := some .completed, progress := some 100, lastIndexed := some time }

end Updates

variable {J R V : Type} (service : Service J R V)

/-- What a host answers for a repository and a user: the default branch and its archive, unless the
user has no token. -/
def hostAnswer (host : Host R) (name : RepoName) (user : String) :
    Action R (Option (String × List UInt8)) := do
  match ← host.token user with
  | none => pure none
  | some token =>
    let branch ← host.defaultBranch name token
    let archive ← host.download name branch token
    pure (some (branch, archive))

/-! ### Two stages -/

/-- Whose chunks a run builds, and from which branch. -/
def contextOf (key : Job.Key) (branch : String) : Chunk.Context := ⟨key.user, key.repo, branch⟩

/-- The first stage of a run: the branch, and the contents of its archive. -/
def fetchStage (key : Job.Key) (event : Progress.Event) :
    Action (World J R V) (String × Archive.Contents × Progress.Event) := do
  let name ← repoName key.repo
  let token ← service.userToken key.user
  let branch ← Action.during ("Failed to resolve default branch of " ++ key.repo)
    (World.onHost (service.host.defaultBranch name token))
  let event ← service.advance key event (branchFound branch (repoUrl key.repo))
  let archive ← Action.during ("Failed to download " ++ key.repo ++ "@" ++ branch)
    (World.onHost (service.host.download name branch token))
  let event ← service.advance key event downloaded
  let contents ← Action.during ("Failed to unpack " ++ key.repo)
    (liftExcept (Archive.Contents.read service.filter archive))
  let event ← service.advance key event (unpacked contents.files.length)
  pure (branch, contents, event)

/-- The second stage of a run: the chunks that are stored go, and new ones come. -/
def rebuildStage (key : Job.Key) (branch : String) (contents : Archive.Contents)
    (event : Progress.Event) : Action (World J R V) Summary := do
  let total := contents.files.length
  let deleted ← World.onIndex
    (VectorIndex.deleteChunks service.index service.pageLimit key.repo key.user)
  let (found, event) ←
    service.extractions key (contextOf key branch) total 0 event contents.files
  let event ← service.advance key event (allFilesDone total)
  let event ← service.storeBatches key found.chunks.length 0 event
    (VectorIndex.batches VectorIndex.upsertBatch found.chunks)
  let now ← service.now
  let _ ← service.advance key event (finished now)
  pure ⟨branch, total, found.failedFiles, found.chunks.length, deleted⟩

/-- The checkpoints of the first stage. -/
def fetchCheckpoints (key : Job.Key) (event : Progress.Event) (branch : String) (contents : Archive.Contents) :
    Action (World J R V) (String × Archive.Contents × Progress.Event) := do
  let event ← service.advance key event (branchFound branch (repoUrl key.repo))
  let event ← service.advance key event downloaded
  let event ← service.advance key event (unpacked contents.files.length)
  pure (branch, contents, event)

/-- Once the answers of the host are known, all that the first stage does is to write its checkpoints. -/
theorem fetchStage_eq {key : Job.Key} {name : RepoName} {token branch : String} {archive : List UInt8}
    {contents : Archive.Contents} (hname : RepoName.ofFullName? key.repo = some name)
    (htoken : service.host.token key.user = pure (some token))
    (hbranch : service.host.defaultBranch name token = pure branch)
    (harchive : service.host.download name branch token = pure archive)
    (hread : Archive.Contents.read service.filter archive = .ok contents) (event : Progress.Event) :
    service.fetchStage key event = service.fetchCheckpoints key event branch contents := by
  have hparts : repoName (J := J) (R := R) (V := V) key.repo = pure name := by rw [repoName, hname]
  have huser : service.userToken key.user = pure token := by
    rw [userToken, htoken]
    rfl
  have hanswer {α : Type} (attempt : String) (a : α) :
      Action.during attempt (World.onHost (pure a) : Action (World J R V) α) = pure a := rfl
  have hunpack (attempt : String) : Action.during attempt
      (liftExcept (.ok contents : Except Failure Archive.Contents) : Action (World J R V) Archive.Contents) =
      pure contents := rfl
  simp only [fetchStage, fetchCheckpoints, hparts, huser, hbranch, harchive, hanswer, hread, hunpack, pure_bind]

theorem runSteps_eq (key : Job.Key) (event : Progress.Event) :
    service.runSteps key event =
      service.fetchStage key event >>= fun (branch, contents, event) =>
        service.rebuildStage key branch contents event := by
  simp only [runSteps, fetchStage, bind_assoc, pure_bind]
  rfl

/-- What a run makes of the outcome of its steps. -/
def closing (service : Service J R V) (key : Job.Key) :
    Except Failure Summary → Action (World J R V) Summary
  | .ok summary => pure summary
  | .error failure => do
    if !failure.isEndless then service.recordFailure key failure
    throw failure

/-- Once the record is reset, a run takes its steps and closes their outcome. -/
theorem outcome_run_of_start {key : Job.Key} {w : World J R V} {start : Job} {jobs : J}
    (hstart : outcome (service.jobs.startRun key (repoUrl key.repo)
      (service.clock w.readings).seconds) w.jobs = (.ok start, jobs)) :
    let steps := outcome (service.runSteps key (firstEvent key.repo))
      { w with jobs, readings := w.readings + 1, reports := w.reports ++ [firstEvent key.repo] }
    outcome (service.run key) w = outcome (service.closing key steps.1) steps.2 := by
  have hjobs : outcome (World.onJobs (service.jobs.startRun key (repoUrl key.repo)
      (service.clock w.readings).seconds)) { w with readings := w.readings + 1 } =
      (.ok start, { w with jobs, readings := w.readings + 1 }) := by
    rw [World.onJobs, outcome_within, hstart]
  have hnow : outcome service.now w =
      (.ok (service.clock w.readings), { w with readings := w.readings + 1 }) := rfl
  rw [run, outcome_bind_of_ok hnow, outcome_bind_of_ok (outcome_during_of_ok hjobs)]
  rfl

/-- The checkpoint after some of the files, if one is due. -/
def fileCheckpoint (key : Job.Key) (total done : Nat) (event : Progress.Event) :
    Action (World J R V) Progress.Event :=
  if done % checkpointFiles = 0 && done < total then
    service.advance key event (filesDone total done)
  else pure event

theorem extractions_cons (key : Job.Key) (context : Chunk.Context) (total done : Nat)
    (event : Progress.Event) (path text : String) (rest : List (String × String)) :
    service.extractions key context total done event ((path, text) :: rest) =
      service.fileCheckpoint key total (done + 1) event >>= fun event =>
        service.extractions key context total (done + 1) event rest >>= fun (later, event) =>
          pure (⟨(service.extraction context path text).chunks ++ later.chunks,
            (service.extraction context path text).failedFiles + later.failedFiles⟩, event) := by
  rw [extractions, fileCheckpoint]
  dsimp only
  split <;> rfl

theorem storeBatches_cons (key : Job.Key) (total done : Nat) (event : Progress.Event)
    (batch : List Chunk) (rest : List (List Chunk)) :
    service.storeBatches key total done event (batch :: rest) =
      Action.during ("Failed to store chunks of " ++ key.repo)
          (World.onIndex (VectorIndex.upsertChunks service.index batch)) >>= fun _ =>
        service.advance key event (chunksStored total (done + batch.length)) >>= fun event =>
          service.storeBatches key total (done + batch.length) event rest := rfl

/-! ### What the files give -/

/-- The chunks of the files, in order; a file whose entities cannot be found has none. -/
def chunksOf (context : Chunk.Context) (files : List (String × String)) : List Chunk :=
  files.flatMap fun (path, text) =>
    match service.catalog.entities text path with
    | .ok entities => Chunk.build context path entities
    | .error _ => []

/-- The number of files whose entities cannot be found. -/
def failingFiles (files : List (String × String)) : Nat :=
  files.countP fun (path, text) => !(service.catalog.entities text path).isOk

theorem chunksOf_cons (context : Chunk.Context) (path text : String) (rest : List (String × String)) :
    service.chunksOf context ((path, text) :: rest) =
      (service.extraction context path text).chunks ++ service.chunksOf context rest := by
  simp only [chunksOf, List.flatMap_cons, extraction]
  cases service.catalog.entities text path <;> rfl

theorem failingFiles_cons (context : Chunk.Context) (path text : String)
    (rest : List (String × String)) :
    service.failingFiles ((path, text) :: rest) =
      (service.extraction context path text).failedFiles + service.failingFiles rest := by
  simp only [failingFiles, List.countP_cons, extraction, Nat.add_comm]
  cases service.catalog.entities text path <;> rfl

theorem start_of_mem_chunksOf {context : Chunk.Context} {files : List (String × String)}
    {chunk : Chunk} (h : chunk ∈ service.chunksOf context files) :
    (Chunk.idStart context.user context.repo).toList.isPrefixOf chunk.id.toList = true := by
  obtain ⟨⟨path, text⟩, _, hmem⟩ := List.mem_flatMap.mp h
  dsimp only at hmem
  split at hmem
  · exact Chunk.start_of_mem_build hmem
  · cases hmem

/-! ### What stays as it is -/

/-- What is read under other keys stays as it is. -/
def OthersKept (key : Job.Key) (w w' : World J R V) : Prop :=
  ∀ other, other ≠ key → service.jobs.read other w'.jobs = service.jobs.read other w.jobs

/-- From one world to another only the clock, the reports and the record of one key may change. -/
structure Aside (key : Job.Key) (w w' : World J R V) : Prop where
  index : w'.index = w.index
  host : w'.host = w.host
  jobs : service.OthersKept key w w'

variable {service}

theorem OthersKept.trans {key : Job.Key} {w w' w'' : World J R V} (h : service.OthersKept key w w')
    (h' : service.OthersKept key w' w'') : service.OthersKept key w w'' := fun other hne =>
  (h' other hne).trans (h other hne)

theorem Aside.refl (key : Job.Key) (w : World J R V) : service.Aside key w w :=
  ⟨rfl, rfl, fun _ _ => rfl⟩

theorem Aside.trans {key : Job.Key} {w w' w'' : World J R V} (h : service.Aside key w w')
    (h' : service.Aside key w' w'') : service.Aside key w w'' :=
  ⟨h'.index.trans h.index, h'.host.trans h.host, h.jobs.trans h'.jobs⟩

@[simp] theorem outcome_now (w : World J R V) :
    outcome service.now w = (.ok (service.clock w.readings), { w with readings := w.readings + 1 }) :=
  rfl

/-- The second before which a record counts as stale. -/
def oldest (service : Service J R V) (readings : Nat) : Int :=
  (service.clock readings).seconds - Int.bmod service.staleAfter (Nat.pow 2 64)

theorem outcome_staleBefore (w : World J R V) :
    outcome service.staleBefore w =
      (.ok (service.oldest w.readings), { w with readings := w.readings + 1 }) := rfl

theorem outcome_updateJob (key : Job.Key) (update : Job.Update) (w : World J R V) :
    outcome (service.updateJob key update) w =
      let result := outcome (service.jobs.update key update (service.clock w.readings).seconds) w.jobs
      (result.1, { w with jobs := result.2, readings := w.readings + 1 }) := rfl

theorem repoName_ok {repo : String} {name : RepoName} {w w' : World J R V}
    (h : outcome (repoName repo) w = (.ok name, w')) :
    RepoName.ofFullName? repo = some name ∧ w' = w := by
  rw [repoName] at h
  cases hname : RepoName.ofFullName? repo with
  | none => simp [hname] at h
  | some found =>
      simp only [hname, outcome_pure, Prod.mk.injEq, Except.ok.injEq] at h
      exact ⟨congrArg some h.1, h.2.symm⟩

/-- What is asked of the host changes nothing but the host. -/
theorem onHost_ok {α : Type} {attempt : String} {step : Action R α} {a : α} {w w' : World J R V}
    (h : outcome (Action.during attempt (World.onHost step)) w = (.ok a, w')) :
    outcome step w.host = (.ok a, w'.host) ∧ w' = { w with host := w'.host } := by
  obtain ⟨r, hstep, rfl⟩ := outcome_within_ok (outcome_mapError_ok h)
  exact ⟨hstep, rfl⟩

/-- A step on the index changes nothing but the index. -/
theorem onIndex_ok {α : Type} {step : Action V α} {a : α} {w w' : World J R V}
    (h : outcome (World.onIndex step) w = (.ok a, w')) :
    outcome step w.index = (.ok a, w'.index) ∧ w' = { w with index := w'.index } := by
  obtain ⟨v, hstep, rfl⟩ := outcome_within_ok h
  exact ⟨hstep, rfl⟩

theorem userToken_ok {user token : String} {w w' : World J R V}
    (h : outcome (service.userToken user) w = (.ok token, w')) :
    outcome (service.host.token user) w.host = (.ok (some token), w'.host) ∧
      w' = { w with host := w'.host } := by
  rw [userToken] at h
  obtain ⟨found, w₁, hfound, h⟩ := outcome_bind_ok h
  cases found with
  | none => cases h
  | some token' =>
      rw [outcome_pure] at h
      cases h
      exact onHost_ok hfound

section Separate

variable (hjobs : service.jobs.Separate)
include hjobs

theorem advance_aside (key : Job.Key) (event : Progress.Event) (update : Job.Update)
    (w : World J R V) : service.Aside key w (outcome (service.advance key event update) w).2 := by
  rw [advance, Action.during, outcome_bind, outcome_mapError, outcome_updateJob]
  dsimp only
  have hother : ∀ other, other ≠ key → _ := fun other hne =>
    hjobs.update (checkpoint event update) (service.clock w.readings).seconds w.jobs hne
  generalize outcome (service.jobs.update key (checkpoint event update)
    (service.clock w.readings).seconds) w.jobs = result at hother ⊢
  obtain ⟨_ | _, jobs⟩ := result
  · exact ⟨rfl, rfl, hother⟩
  · exact ⟨rfl, rfl, hother⟩

theorem advance_ok {key : Job.Key} {event event' : Progress.Event} {update : Job.Update}
    {w w' : World J R V} (h : outcome (service.advance key event update) w = (.ok event', w')) :
    service.Aside key w w' := by
  have haside := advance_aside hjobs key event update w
  rwa [h] at haside

/-- What the host answers and the archive holds is all that the first stage takes from outside; the
index stays as it is. -/
theorem fetchStage_ok {key : Job.Key} {event event' : Progress.Event} {branch : String}
    {contents : Archive.Contents} {w w' : World J R V}
    (h : outcome (service.fetchStage key event) w = (.ok (branch, contents, event'), w')) :
    ∃ name archive, RepoName.ofFullName? key.repo = some name ∧
      outcome (hostAnswer service.host name key.user) w.host = (.ok (some (branch, archive)), w'.host) ∧
      Archive.Contents.read service.filter archive = .ok contents ∧
      w'.index = w.index ∧ service.OthersKept key w w' := by
  rw [fetchStage] at h
  obtain ⟨name, w₁, hname, h⟩ := outcome_bind_ok h
  obtain ⟨token, w₂, htoken, h⟩ := outcome_bind_ok h
  obtain ⟨branch', w₃, hbranch, h⟩ := outcome_bind_ok h
  obtain ⟨event₁, w₄, hfound, h⟩ := outcome_bind_ok h
  obtain ⟨archive, w₅, harchive, h⟩ := outcome_bind_ok h
  obtain ⟨event₂, w₆, hdownloaded, h⟩ := outcome_bind_ok h
  obtain ⟨contents', w₇, hcontents, h⟩ := outcome_bind_ok h
  obtain ⟨event₃, w₈, hunpacked, h⟩ := outcome_bind_ok h
  rw [outcome_pure] at h
  cases h
  obtain ⟨hparts, rfl⟩ := repoName_ok hname
  obtain ⟨htoken, hw₂⟩ := userToken_ok htoken
  obtain ⟨hbranch, hw₃⟩ := onHost_ok hbranch
  have haside₁ := advance_ok hjobs hfound
  obtain ⟨harchive, hw₅⟩ := onHost_ok harchive
  have haside₂ := advance_ok hjobs hdownloaded
  have hread := outcome_mapError_ok hcontents
  rw [outcome_liftExcept, Prod.mk.injEq] at hread
  obtain ⟨hread, rfl⟩ := hread
  have haside₃ := advance_ok hjobs hunpacked
  refine ⟨name, archive, hparts, ?_, hread, ?_, ?_⟩
  · rw [haside₁.host] at harchive
    rw [hostAnswer, outcome_bind_of_ok htoken, outcome_bind_of_ok hbranch, outcome_bind_of_ok harchive,
      outcome_pure, haside₃.host, haside₂.host]
  · rw [haside₃.index, haside₂.index, hw₅, haside₁.index, hw₃, hw₂]
  · have hbefore : service.OthersKept key w₁ w₃ := by
      rw [hw₃, hw₂]
      exact fun _ _ => rfl
    have hbetween : service.OthersKept key w₄ w₅ := by
      rw [hw₅]
      exact fun _ _ => rfl
    exact (((hbefore.trans haside₁.jobs).trans hbetween).trans haside₂.jobs).trans haside₃.jobs

/-- Of an extraction that comes to its end the chunks and the failing files are those of the files. -/
theorem extractions_ok {key : Job.Key} {context : Chunk.Context} {total : Nat}
    {files : List (String × String)} :
    ∀ {done : Nat} {event event' : Progress.Event} {found : Extraction} {w w' : World J R V},
      outcome (service.extractions key context total done event files) w = (.ok (found, event'), w') →
      found = ⟨service.chunksOf context files, service.failingFiles files⟩ ∧
        service.Aside key w w' := by
  induction files with
  | nil =>
      intro done event event' found w w' h
      rw [extractions, outcome_pure] at h
      cases h
      exact ⟨rfl, .refl key w⟩
  | cons file rest ih =>
      obtain ⟨path, text⟩ := file
      intro done event event' found w w' h
      rw [extractions_cons] at h
      obtain ⟨event₁, w₁, hcheckpoint, h⟩ := outcome_bind_ok h
      obtain ⟨⟨later, event₂⟩, w₂, hrest, h⟩ := outcome_bind_ok h
      rw [outcome_pure] at h
      cases h
      have hbefore : service.Aside key w w₁ := by
        rw [fileCheckpoint] at hcheckpoint
        split at hcheckpoint
        · exact advance_ok hjobs hcheckpoint
        · rw [outcome_pure] at hcheckpoint
          cases hcheckpoint
          exact .refl key w
      obtain ⟨rfl, hafter⟩ := ih hrest
      refine ⟨?_, hbefore.trans hafter⟩
      rw [chunksOf_cons, failingFiles_cons service context]

/-- A run that comes to its end came through both of its stages. -/
theorem run_ok {key : Job.Key} {summary : Summary} {w w' : World J R V}
    (h : outcome (service.run key) w = (.ok summary, w')) :
    ∃ name branch archive contents event w₁, RepoName.ofFullName? key.repo = some name ∧
      outcome (hostAnswer service.host name key.user) w.host = (.ok (some (branch, archive)), w₁.host) ∧
      Archive.Contents.read service.filter archive = .ok contents ∧
      w₁.index = w.index ∧ service.OthersKept key w w₁ ∧
      outcome (service.rebuildStage key branch contents event) w₁ = (.ok summary, w') := by
  rw [run] at h
  obtain ⟨now, w₁, hnow, h⟩ := outcome_bind_ok h
  obtain ⟨job, w₂, hstart, h⟩ := outcome_bind_ok h
  obtain ⟨_, w₃, hreport, h⟩ := outcome_bind_ok h
  obtain ⟨result, w₄, hsteps, h⟩ := outcome_bind_ok h
  rw [outcome_now] at hnow
  cases hnow
  obtain ⟨jobs, hjob, hw₂⟩ := outcome_within_ok (outcome_mapError_ok hstart)
  cases hreport
  rw [outcome_attempt, Prod.mk.injEq, Except.ok.injEq] at hsteps
  have hothers : service.OthersKept key w w₂ := by
    intro other hne
    have hkept := hjobs.startRun (repoUrl key.repo) (service.clock w.readings).seconds w.jobs hne
    rw [hw₂]
    exact (congrArg (service.jobs.read other) (congrArg Prod.snd hjob)).symm.trans hkept
  cases result with
  | error failure =>
      dsimp only at h
      split at h
      · obtain ⟨_, _, _, h⟩ := outcome_bind_ok h
        cases h
      · cases h
  | ok found =>
      cases h
      have hboth : outcome (service.runSteps key (firstEvent key.repo))
          { w₂ with reports := w₂.reports ++ [firstEvent key.repo] } = (.ok summary, w') :=
        Prod.ext hsteps.1 hsteps.2
      rw [runSteps_eq] at hboth
      obtain ⟨⟨branch, contents, event⟩, w₅, hfetch, hrebuild⟩ := outcome_bind_ok hboth
      obtain ⟨name, archive, hname, hhost, hread, hindex, hkept⟩ := fetchStage_ok hjobs hfetch
      refine ⟨name, branch, archive, contents, event, w₅, hname, ?_, hread, ?_, ?_, hrebuild⟩
      · rw [hw₂] at hhost
        exact hhost
      · rw [hindex, hw₂]
      · exact hothers.trans hkept

end Separate

/-! ### A repository without files -/

/-- A compressed archive that holds nothing. -/
def emptyArchive : List UInt8 := [31, 139, 8, 0, 0, 0, 0, 0, 0, 255, 3, 0, 0, 0, 0, 0, 0, 0, 0, 0]

/-- Jobs and records are kept in memory, and the host answers every user with the empty archive. -/
def bareService : Service Job.Memory Unit VectorIndex.Local where
  jobs := Job.Memory.store
  host :=
    { token := fun _ => pure (some "token")
      defaultBranch := fun _ _ => pure "main"
      download := fun _ _ _ => pure emptyArchive }
  index := VectorIndex.Local.index
  filter := ⟨[], 0⟩
  catalog := []
  clock n := ⟨n, 0⟩
  timeout := 60
  staleAfter := 60
  pageLimit := 1

/-- No job is known, and the index holds some records. -/
def bareWorld (records : List VectorIndex.Record) : World Job.Memory Unit VectorIndex.Local :=
  ⟨.empty, (), ⟨records, [], .none⟩, 0, [], []⟩

/-! ### A repository of two files -/

section TwoFiles
open Archive Text

/-- The block before the body of a file, given its path and the octal digits of its size and of the checksum. -/
def headerBlock (path size checksum : String) : List UInt8 :=
  let front := encode path.toList
  front ++ List.replicate (124 - front.length) 0 ++ encode size.toList ++ List.replicate 13 0 ++
    encode checksum.toList ++ [0, 32, 48] ++ List.replicate 355 0

/-- A body of less than a block, filled up with zeros. -/
def bodyBlock (text : String) : List UInt8 :=
  encode text.toList ++ List.replicate (Tar.blockSize - (encode text.toList).length) 0

def twoFiles : List (String × String) :=
  [("b.py", "def f():\n    g()\n"), ("c.rs", "fn main() \x7b\x7d\n")]

/-- An archive of the two files. -/
def twoFilesArchive : List UInt8 :=
  Gzip.storedFile
    (headerBlock "app/b.py" "00000000021" "003054" ++ bodyBlock "def f():\n    g()\n" ++
      (headerBlock "app/c.rs" "00000000015" "003054" ++ bodyBlock "fn main() \x7b\x7d\n"))

/-- The host answers with the two files. One of them is left to an extractor that always fails. -/
def twoFilesService : Service Job.Memory Unit VectorIndex.Local :=
  { bareService with
    host := { bareService.host with download := fun _ _ _ => pure twoFilesArchive }
    filter := ⟨[], 100⟩
    catalog := Catalog.standard.add ⟨(· == "rs".toList), fun _ _ => .error "unreadable"⟩ }

def appKey : Job.Key := ⟨"u1", "acme/app"⟩

/-- Of two records the first one is in the namespace of the repository. -/
def strayRecords : List VectorIndex.Record :=
  [⟨Chunk.idStart "u1" "acme/app" ++ "0", "", .null⟩, ⟨"other", "", .null⟩]

theorem read_twoFilesArchive :
    Contents.read twoFilesService.filter twoFilesArchive = .ok ⟨twoFiles, 0, 0, 0, 0⟩ := by
  rw [Contents.read, twoFilesArchive, Gzip.read_storedFile (by decide +kernel)]
  exact ok_of_toOption (by decide +kernel)

/-- The file that can be read gives two chunks, with or without records to be deleted before. -/
theorem summary_twoFiles :
    (outcome (twoFilesService.run appKey) (bareWorld strayRecords)).1.toOption = some ⟨"main", 2, 1, 2, 1⟩ ∧
      (outcome (twoFilesService.run appKey) (bareWorld [])).1.toOption = some ⟨"main", 2, 1, 2, 0⟩ := by
  have hname : RepoName.ofFullName? appKey.repo = some ⟨"acme", "app"⟩ := by decide +kernel
  have hfetch := twoFilesService.fetchStage_eq hname rfl rfl rfl read_twoFilesArchive
  simp only [run, runSteps_eq, hfetch]
  decide +kernel

end TwoFiles

end SourceIndex.Service
