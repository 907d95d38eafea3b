import SourceIndex.Proofs.Service.Plan

/-! The checkpoints of a run on a job store whose record of the key is what the updates make of it. All
that the other collaborators can do is to fail or to answer: a checkpoint is written exactly as the plan
has it, since the percentage it asks for is never below the last one. So what a run has written at any
time is a beginning of its plan, and the rest of the plan is lacking only when the run has failed. -/

namespace SourceIndex.Service
open Step Job VectorIndex

/-- How a job store is read for a key, and where a run on it began: what had been written, and the
record that it reset. -/
structure Ledger (J : Type) where
  stored : J → Option Job
  written : J → List Update
  before : List Update
  start : Job

/-- Since the start of the run exactly these updates were written, and the record is what they made of
the one that was reset. -/
def Ledger.Reached {J : Type} (ledger : Ledger J) (updates : List Update) (jobs : J) : Prop :=
  ∃ stamped : List (Update × Int), stamped.map Prod.fst = updates ∧
    ledger.written jobs = ledger.before ++ updates ∧
    ledger.stored jobs = some (ledger.start.replay stamped)

variable {J R V : Type} {service : Service J R V} {key : Job.Key} {ledger : Ledger J}

/-! ### Steps that write nothing -/

theorem onHost_cases {α : Type} (attempt : String) (step : Action R α) (w : World J R V) :
    ∃ r, (∃ failure, outcome (Action.during attempt (World.onHost step)) w =
        (.error failure, { w with host := r })) ∨
      ∃ a, outcome step w.host = (.ok a, r) ∧
        outcome (Action.during attempt (World.onHost step)) w = (.ok a, { w with host := r }) := by
  rcases h : outcome step w.host with ⟨failure | a, r⟩
  · refine ⟨r, Or.inl ⟨failure.during attempt, outcome_during_of_error ?_⟩⟩
    rw [World.onHost, outcome_within, h]
  · refine ⟨r, Or.inr ⟨a, rfl, outcome_during_of_ok ?_⟩⟩
    rw [World.onHost, outcome_within, h]

theorem onIndex_cases {α : Type} (step : Action V α) (w : World J R V) :
    ∃ v, (∃ failure, outcome (World.onIndex step) w = (.error failure, { w with index := v })) ∨
      ∃ a, outcome (World.onIndex step) w = (.ok a, { w with index := v }) := by
  rcases h : outcome step w.index with ⟨failure | a, v⟩
  · exact ⟨v, Or.inl ⟨failure, by rw [World.onIndex, outcome_within, h]⟩⟩
  · exact ⟨v, Or.inr ⟨a, by rw [World.onIndex, outcome_within, h]⟩⟩

theorem userToken_cases (service : Service J R V) (user : String) (w : World J R V) :
    ∃ r, (∃ failure, outcome (service.userToken user) w = (.error failure, { w with host := r })) ∨
      ∃ token, outcome (service.host.token user) w.host = (.ok (some token), r) ∧
        outcome (service.userToken user) w = (.ok token, { w with host := r }) := by
  obtain ⟨r, ⟨failure, hfailure⟩ | ⟨found, hhost, hfound⟩⟩ :=
    onHost_cases "Failed to look up GitHub credential" (service.host.token user) w
  · exact ⟨r, Or.inl ⟨failure, by rw [userToken, outcome_bind_of_error hfailure]⟩⟩
  · rw [userToken, outcome_bind_of_ok hfound]
    cases found with
    | none => exact ⟨r, Or.inl ⟨_, rfl⟩⟩
    | some token => exact ⟨r, Or.inr ⟨token, hhost, rfl⟩⟩

theorem repoName_cases (repo : String) (w : World J R V) :
    (∃ failure, outcome (repoName repo) w = (.error failure, w)) ∨
      ∃ name, RepoName.ofFullName? repo = some name ∧ outcome (repoName repo) w = (.ok name, w) := by
  rw [repoName]
  cases RepoName.ofFullName? repo with
  | none => exact Or.inl ⟨_, rfl⟩
  | some name => exact Or.inr ⟨name, rfl, rfl⟩

/-! ### Steps that write checkpoints -/

section Records

variable (hrecords : service.jobs.Records key ledger.stored ledger.written)
include hrecords

theorem updateJob_reached {updates : List Update} {w : World J R V}
    (h : ledger.Reached updates w.jobs) (update : Update) :
    ∃ jobs, outcome (service.updateJob key update) w =
        (.ok (), { w with jobs, readings := w.readings + 1 }) ∧
      ledger.Reached (updates ++ [update]) jobs := by
  obtain ⟨stamped, hstamped, hwritten, hstored⟩ := h
  obtain ⟨jobs, houtcome, hstored', hwritten'⟩ :=
    hrecords.update update (service.clock w.readings).seconds w.jobs hstored
  refine ⟨jobs, ?_, stamped ++ [(update, (service.clock w.readings).seconds)], ?_, ?_, ?_⟩
  · rw [outcome_updateJob, houtcome]
  · rw [List.map_append, hstamped]
    rfl
  · rw [hwritten', hwritten, List.append_assoc]
  · rw [hstored', replay_append]
    rfl

/-- A checkpoint that does not lower the percentage is written as it is. -/
theorem advance_reached {updates : List Update} {update : Update} {percent : Nat}
    {event : Progress.Event} {w : World J R V} (h : ledger.Reached updates w.jobs)
    (hprogress : update.progress = some percent) (hlow : event.percent ≤ percent)
    (hhigh : percent ≤ 100) :
    ∃ event' w', outcome (service.advance key event update) w = (.ok event', w') ∧
      event'.percent = percent ∧ w'.host = w.host ∧
      ledger.Reached (updates ++ [update]) w'.jobs := by
  have hclamp : min (max percent event.percent) 100 = percent := by omega
  have hsame : checkpoint event update = update := by
    rw [checkpoint, hprogress, Option.map_some, hclamp, ← hprogress]
  obtain ⟨jobs, houtcome, hreached⟩ := updateJob_reached hrecords h update
  refine ⟨advanced event update,
    { w with
      jobs
      readings := w.readings + 1
      reports := w.reports ++ [advanced event update] }, ?_, ?_, rfl, hreached⟩
  · rw [advance, hsame]
    exact outcome_bind_of_ok (outcome_during_of_ok houtcome)
  · rw [advanced, hprogress]
    rfl

/-- Extracting cannot fail, and writes a checkpoint at every mark. -/
theorem extractions_reached {context : Chunk.Context} {total : Nat}
    {files : List (String × String)} :
    ∀ {done : Nat} {event : Progress.Event} {updates : List Update} {w : World J R V},
      ledger.Reached updates w.jobs → event.percent ≤ percentAt 25 50 done total →
      ∃ event' w', outcome (service.extractions key context total done event files) w =
          (.ok (⟨service.chunksOf context files, service.failingFiles files⟩, event'), w') ∧
        event'.percent ≤ 75 ∧
        ledger.Reached (updates ++ (fileMarksFrom done files.length total).map (filesDone total))
          w'.jobs := by
  induction files with
  | nil =>
      intro done event updates w h hpercent
      refine ⟨event, w, rfl, Nat.le_trans hpercent (percentAt_le 25 50 done total), ?_⟩
      rwa [List.length_nil, fileMarksFrom_zero, List.map_nil, List.append_nil]
  | cons file rest ih =>
      obtain ⟨path, text⟩ := file
      intro done event updates w h hpercent
      have hraise : event.percent ≤ percentAt 25 50 (done + 1) total :=
        Nat.le_trans hpercent (percentAt_mono (Nat.le_succ done))
      have hcheckpoint : ∃ event' w', outcome (service.fileCheckpoint key total (done + 1) event) w =
            (.ok event', w') ∧ event'.percent ≤ percentAt 25 50 (done + 1) total ∧
          ledger.Reached (updates ++ (fileMarksFrom done 1 total).map (filesDone total)) w'.jobs := by
        rw [fileCheckpoint, fileMarksFrom_one]
        split
        · obtain ⟨event', w', houtcome, hevent, _, hreached⟩ :=
            advance_reached hrecords h (show (filesDone total (done + 1)).progress = _ from rfl) hraise
              (Nat.le_trans (percentAt_le 25 50 (done + 1) total) (by decide))
          exact ⟨event', w', houtcome, Nat.le_of_eq hevent, hreached⟩
        · refine ⟨event, w, rfl, hraise, ?_⟩
          rwa [List.map_nil, List.append_nil]
      obtain ⟨event₁, w₁, hfirst, hevent₁, hreached₁⟩ := hcheckpoint
      obtain ⟨event₂, w₂, hlater, hevent₂, hreached₂⟩ := ih hreached₁ hevent₁
      refine ⟨event₂, w₂, ?_, hevent₂, ?_⟩
      · rw [extractions_cons, outcome_bind_of_ok hfirst, outcome_bind_of_ok hlater, outcome_pure,
          chunksOf_cons, failingFiles_cons service context]
      · rw [List.append_assoc, ← List.map_append, ← fileMarksFrom_succ] at hreached₂
        exact hreached₂

/-- Storing may break off before any of its batches, and writes a checkpoint after each. -/
theorem storeBatches_reached {total : Nat} (batches : List (List Chunk)) :
    ∀ {done : Nat} {event : Progress.Event} {updates : List Update} {w : World J R V},
      ledger.Reached updates w.jobs → event.percent ≤ percentAt 80 18 done total →
      (∃ event' w', outcome (service.storeBatches key total done event batches) w =
          (.ok event', w') ∧ event'.percent ≤ 98 ∧
        ledger.Reached (updates ++ (totals done batches).map (chunksStored total)) w'.jobs) ∨
      ∃ failure w' n, outcome (service.storeBatches key total done event batches) w =
          (.error failure, w') ∧ n ≤ (totals done batches).length ∧
        ledger.Reached (updates ++ ((totals done batches).map (chunksStored total)).take n) w'.jobs := by
  induction batches with
  | nil =>
      intro done event updates w h hpercent
      refine Or.inl ⟨event, w, rfl, Nat.le_trans hpercent (percentAt_le 80 18 done total), ?_⟩
      rwa [totals, List.map_nil, List.append_nil]
  | cons batch rest ih =>
      intro done event updates w h hpercent
      rw [storeBatches_cons, totals, List.map_cons]
      obtain ⟨v, ⟨failure, hfailure⟩ | ⟨_, hstore⟩⟩ :=
        onIndex_cases (upsertChunks service.index batch) w
      · rw [outcome_bind_of_error (outcome_during_of_error hfailure)]
        refine Or.inr ⟨_, _, 0, rfl, Nat.zero_le _, ?_⟩
        rw [List.take_zero, List.append_nil]
        exact h
      · rw [outcome_bind_of_ok (outcome_during_of_ok hstore)]
        have hraise : event.percent ≤ percentAt 80 18 (done + batch.length) total :=
          Nat.le_trans hpercent (percentAt_mono (Nat.le_add_right _ _))
        obtain ⟨event₁, w₁, hadvance, hevent₁, _, hreached₁⟩ :=
          advance_reached (w := { w with index := v }) hrecords h
            (show (chunksStored total (done + batch.length)).progress = _ from rfl) hraise
            (Nat.le_trans (percentAt_le 80 18 (done + batch.length) total) (by decide))
        rw [outcome_bind_of_ok hadvance]
        rcases ih hreached₁ (Nat.le_of_eq hevent₁) with
          ⟨event₂, w₂, hlater, hevent₂, hreached₂⟩ | ⟨failure, w₂, n, hlater, hn, hreached₂⟩
        · refine Or.inl ⟨event₂, w₂, hlater, hevent₂, ?_⟩
          rwa [List.append_assoc] at hreached₂
        · refine Or.inr ⟨failure, w₂, n + 1, hlater, Nat.succ_le_succ hn, ?_⟩
          rwa [List.append_assoc] at hreached₂

end Records

/-! ### Following the plan -/

/-- Where the plan of a run comes from that has written `n` updates of it: the branch from the host once
the first is written, the files and their chunks from the archive once the third is. -/
structure Learned (service : Service J R V) (key : Job.Key) (plan : Plan) (n : Nat) (r : R) : Prop where
  url : plan.url = repoUrl key.repo
  branch : 0 < n → ∃ name token r₁ r₂, RepoName.ofFullName? key.repo = some name ∧
    outcome (service.host.token key.user) r = (.ok (some token), r₁) ∧
    outcome (service.host.defaultBranch name token) r₁ = (.ok plan.branch, r₂)
  files : 2 < n → ∃ name archive contents r', RepoName.ofFullName? key.repo = some name ∧
    outcome (hostAnswer service.host name key.user) r = (.ok (some (plan.branch, archive)), r') ∧
    Archive.Contents.read service.filter archive = .ok contents ∧
    plan.files = contents.files.length ∧
    plan.chunks = (service.chunksOf (contextOf key plan.branch) contents.files).length

/-- A run has written a beginning of its plan: the whole of it if it succeeded, and then its summary is
that of the plan, and less than that if it failed. -/
def Follows (service : Service J R V) (key : Job.Key) (ledger : Ledger J) (r : R)
    (result : Except Failure Summary) (jobs : J) : Prop :=
  ∃ plan n, ledger.Reached (plan.updates.take n) jobs ∧ service.Learned key plan n r ∧
    match result with
    | .ok summary => n = plan.updates.length ∧ summary.branch = plan.branch ∧
        summary.files = plan.files ∧ summary.chunks = plan.chunks
    | .error _ => n < plan.updates.length

/-- A run that fails before the archive is unpacked has written two updates at most. -/
theorem follows_of_fetch {branch : String} {failure : Failure} {n : Nat} {r : R} {jobs : J}
    (hn : n ≤ 2)
    (hreached : ledger.Reached ([branchFound branch (repoUrl key.repo), downloaded].take n) jobs)
    (hbranch : 0 < n → ∃ name token r₁ r₂, RepoName.ofFullName? key.repo = some name ∧
      outcome (service.host.token key.user) r = (.ok (some token), r₁) ∧
      outcome (service.host.defaultBranch name token) r₁ = (.ok branch, r₂)) :
    service.Follows key ledger r (.error failure) jobs := by
  refine ⟨⟨repoUrl key.repo, branch, 0, 0, service.clock 0⟩, n, ?_, ⟨rfl, hbranch, fun h => ?_⟩, ?_⟩
  · rcases n with _ | _ | _ | n
    · exact hreached
    · exact hreached
    · exact hreached
    · omega
  · omega
  · exact Nat.lt_trans (Nat.lt_succ_of_le hn) (Plan.three_lt_length_updates _)

theorem follows_of_nothing {failure : Failure} {r : R} {jobs : J} (h : ledger.Reached [] jobs) :
    service.Follows key ledger r (.error failure) jobs := by
  have hreached : ledger.Reached ([branchFound "" (repoUrl key.repo), downloaded].take 0) jobs := h
  exact follows_of_fetch (Nat.zero_le 2) hreached fun hpos => absurd hpos (Nat.lt_irrefl 0)

section Stages

variable (hrecords : service.jobs.Records key ledger.stored ledger.written)
include hrecords

/-- The first stage ends with the opening of a plan, or fails on the way to it. -/
theorem fetchStage_reached {event : Progress.Event} {w : World J R V}
    (h : ledger.Reached [] w.jobs) (hpercent : event.percent = 0) :
    (∃ branch contents event' w', outcome (service.fetchStage key event) w =
        (.ok (branch, contents, event'), w') ∧ event'.percent = 25 ∧
      ledger.Reached [branchFound branch (repoUrl key.repo), downloaded,
        unpacked contents.files.length] w'.jobs ∧
      ∀ n finishedAt, service.Learned key ⟨repoUrl key.repo, branch, contents.files.length,
        (service.chunksOf (contextOf key branch) contents.files).length, finishedAt⟩ n w.host) ∨
    ∃ failure w', outcome (service.fetchStage key event) w = (.error failure, w') ∧
      service.Follows key ledger w.host (.error failure) w'.jobs := by
  rw [fetchStage]
  obtain ⟨failure, houtcome⟩ | ⟨name, hname, houtcome⟩ := repoName_cases key.repo w
  · exact Or.inr ⟨failure, w, outcome_bind_of_error houtcome, follows_of_nothing h⟩
  rw [outcome_bind_of_ok houtcome]
  obtain ⟨r₁, ⟨failure, houtcome⟩ | ⟨token, htoken, houtcome⟩⟩ := userToken_cases service key.user w
  · exact Or.inr ⟨failure, _, outcome_bind_of_error houtcome, follows_of_nothing h⟩
  rw [outcome_bind_of_ok houtcome]
  obtain ⟨r₂, ⟨failure, houtcome⟩ | ⟨branch, hbranch, houtcome⟩⟩ :=
    onHost_cases ("Failed to resolve default branch of " ++ key.repo)
      (service.host.defaultBranch name token) { w with host := r₁ }
  · exact Or.inr ⟨failure, _, outcome_bind_of_error houtcome, follows_of_nothing h⟩
  rw [outcome_bind_of_ok houtcome]
  have hlearned : ∃ name token r₁ r₂, RepoName.ofFullName? key.repo = some name ∧
      outcome (service.host.token key.user) w.host = (.ok (some token), r₁) ∧
      outcome (service.host.defaultBranch name token) r₁ = (.ok branch, r₂) :=
    ⟨name, token, r₁, r₂, hname, htoken, hbranch⟩
  obtain ⟨event₁, w₁, houtcome, hpercent₁, hhost₁, hreached₁⟩ :=
    advance_reached (w := { w with host := r₂ }) hrecords h
      (show (branchFound branch (repoUrl key.repo)).progress = some 5 from rfl)
      (hpercent ▸ Nat.zero_le 5) (by decide)
  rw [outcome_bind_of_ok houtcome]
  obtain ⟨r₃, ⟨failure, houtcome⟩ | ⟨archive, harchive, houtcome⟩⟩ :=
    onHost_cases ("Failed to download " ++ key.repo ++ "@" ++ branch)
      (service.host.download name branch token) w₁
  · exact Or.inr ⟨failure, _, outcome_bind_of_error houtcome,
      follows_of_fetch (show 1 ≤ 2 by decide) hreached₁ fun _ => hlearned⟩
  rw [outcome_bind_of_ok houtcome]
  obtain ⟨event₂, w₂, houtcome, hpercent₂, hhost₂, hreached₂⟩ :=
    advance_reached (w := { w₁ with host := r₃ }) hrecords hreached₁
      (show downloaded.progress = some 15 from rfl) (Nat.le_trans (Nat.le_of_eq hpercent₁) (by decide))
      (by decide)
  rw [outcome_bind_of_ok houtcome]
  cases hread : Archive.Contents.read service.filter archive with
  | error failure =>
      refine Or.inr ⟨_, w₂, outcome_bind_of_error (outcome_during_of_error (outcome_liftExcept _ _)),
        follows_of_fetch (Nat.le_refl 2) hreached₂ fun _ => hlearned⟩
  | ok contents =>
      rw [outcome_bind_of_ok (outcome_during_of_ok (outcome_liftExcept _ _))]
      obtain ⟨event₃, w₃, houtcome, hpercent₃, hhost₃, hreached₃⟩ :=
        advance_reached hrecords hreached₂
          (show (unpacked contents.files.length).progress = some 25 from rfl)
          (Nat.le_trans (Nat.le_of_eq hpercent₂) (by decide)) (by decide)
      rw [outcome_bind_of_ok houtcome]
      refine Or.inl ⟨branch, contents, event₃, w₃, rfl, hpercent₃, hreached₃, fun n finishedAt => ?_⟩
      refine ⟨rfl, fun _ => hlearned, fun _ => ⟨name, archive, contents, r₃, hname, ?_, hread, rfl, rfl⟩⟩
      rw [hhost₁] at harchive
      rw [hostAnswer, outcome_bind_of_ok htoken, outcome_bind_of_ok hbranch,
        outcome_bind_of_ok harchive, outcome_pure]

/-- The second stage follows the plan that the first one opened. -/
theorem rebuildStage_reached {branch : String} {contents : Archive.Contents} {event : Progress.Event}
    {r : R} {w : World J R V}
    (h : ledger.Reached [branchFound branch (repoUrl key.repo), downloaded,
      unpacked contents.files.length] w.jobs) (hpercent : event.percent = 25)
    (hlearned : ∀ n finishedAt, service.Learned key ⟨repoUrl key.repo, branch, contents.files.length,
      (service.chunksOf (contextOf key branch) contents.files).length, finishedAt⟩ n r) :
    service.Follows key ledger r (outcome (service.rebuildStage key branch contents event) w).1
      (outcome (service.rebuildStage key branch contents event) w).2.jobs := by
  generalize hchunks : service.chunksOf (contextOf key branch) contents.files = chunks at hlearned
  rw [rebuildStage]
  obtain ⟨v, ⟨failure, houtcome⟩ | ⟨deleted, houtcome⟩⟩ :=
    onIndex_cases (deleteChunks service.index service.pageLimit key.repo key.user) w
  · rw [outcome_bind_of_error houtcome]
    exact ⟨⟨_, branch, contents.files.length, chunks.length, service.clock 0⟩, 3, h,
      hlearned 3 (service.clock 0), Plan.three_lt_length_updates _⟩
  rw [outcome_bind_of_ok houtcome]
  obtain ⟨event₁, w₁, houtcome, hpercent₁, hreached₁⟩ :=
    extractions_reached (w := { w with index := v }) hrecords h
      (Nat.le_trans (Nat.le_of_eq hpercent) (le_percentAt 25 50 0 contents.files.length))
  rw [outcome_bind_of_ok houtcome]
  obtain ⟨event₂, w₂, houtcome, hpercent₂, _, hreached₂⟩ :=
    advance_reached hrecords hreached₁
      (show (allFilesDone contents.files.length).progress = some 80 from rfl)
      (Nat.le_trans hpercent₁ (by decide)) (by decide)
  rw [outcome_bind_of_ok houtcome]
  dsimp only
  rw [hchunks]
  rcases storeBatches_reached hrecords (batches upsertBatch chunks) hreached₂
    (Nat.le_trans (Nat.le_of_eq hpercent₂) (le_percentAt 80 18 0 chunks.length)) with
    ⟨event₃, w₃, houtcome, hpercent₃, hreached₃⟩ | ⟨failure, w₃, n, houtcome, hn, hreached₃⟩
  · rw [totals_batches (by decide)] at hreached₃
    rw [outcome_bind_of_ok houtcome, outcome_bind_of_ok (outcome_now w₃)]
    obtain ⟨event₄, w₄, houtcome, _, _, hreached₄⟩ :=
      advance_reached (w := { w₃ with readings := w₃.readings + 1 }) hrecords hreached₃
        (show (finished (service.clock w₃.readings)).progress = some 100 from rfl)
        (Nat.le_trans hpercent₃ (by decide)) (Nat.le_refl 100)
    rw [outcome_bind_of_ok houtcome]
    refine ⟨⟨repoUrl key.repo, branch, contents.files.length, chunks.length,
      service.clock w₃.readings⟩, _, ?_, hlearned _ (service.clock w₃.readings), rfl, rfl, rfl, rfl⟩
    rw [List.take_length, Plan.updates_eq]
    exact hreached₄
  · rw [totals_batches (by decide)] at hn hreached₃
    rw [outcome_bind_of_error houtcome]
    let plan : Plan :=
      ⟨repoUrl key.repo, branch, contents.files.length, chunks.length, service.clock 0⟩
    have hcount : n ≤ plan.chunkUpdates.length := by
      rw [Plan.chunkUpdates, List.length_map]
      exact hn
    refine ⟨plan, plan.untilStoring.length + n, ?_, hlearned _ (service.clock 0), ?_⟩
    · rw [Plan.take_updates plan hcount]
      exact hreached₃
    · rw [Plan.length_updates]
      omega

theorem runSteps_reached {event : Progress.Event} {w : World J R V}
    (h : ledger.Reached [] w.jobs) (hpercent : event.percent = 0) :
    service.Follows key ledger w.host (outcome (service.runSteps key event) w).1
      (outcome (service.runSteps key event) w).2.jobs := by
  rw [runSteps_eq]
  rcases fetchStage_reached hrecords h hpercent with
    ⟨branch, contents, event', w', houtcome, hpercent', hreached, hlearned⟩ |
    ⟨failure, w', houtcome, hfollows⟩
  · rw [outcome_bind_of_ok houtcome]
    exact rebuildStage_reached hrecords hreached hpercent' hlearned
  · rw [outcome_bind_of_error houtcome]
    exact hfollows

end Stages

/-! ### The run -/

/-- What a run leaves behind in the job store, given the record that it reset, its plan, how many updates
of the plan it wrote and all updates with their times. After the update for its start it has written
these updates, and every record on the way is the one before with the next update. A run that succeeds
has written its plan; one that fails has written less of it and then its failure, unless it is one that
has no end. Every record on the way is sound, and the percentage never falls. -/
structure RunTrail (service : Service J R V) (key : Job.Key) (stored : J → Option Job)
    (written : J → List Update) (w : World J R V) (result : Except Failure Summary) (jobs : J)
    (start : Job) (plan : Plan) (n : Nat) (stamped : List (Update × Int)) : Prop where
  reset : ∃ earlier : Job,
    start = earlier.reset .cloning (repoUrl key.repo) (service.clock w.readings).seconds
  written : written jobs =
    written w.jobs ++ Memory.startUpdate (repoUrl key.repo) :: stamped.map Prod.fst
  stored : stored jobs = some (start.replay stamped)
  learned : service.Learned key plan n w.host
  success : ∀ summary, result = .ok summary → n = plan.updates.length ∧
    stamped.map Prod.fst = plan.updates ∧ summary.branch = plan.branch ∧
    summary.files = plan.files ∧ summary.chunks = plan.chunks
  failure : ∀ failure, result = .error failure → n < plan.updates.length ∧
    stamped.map Prod.fst =
      plan.updates.take n ++ if failure.isEndless then [] else [.failed failure.text]
  sound : ∀ k, (start.replay (stamped.take k)).Sound
  rising : ∀ k l, k ≤ l →
    (start.replay (stamped.take k)).progress ≤ (start.replay (stamped.take l)).progress

section Closing

variable (hrecords : service.jobs.Records key ledger.stored ledger.written)
include hrecords

/-- A failure that has an end is written to the record, and it is passed on in any case. -/
theorem outcome_closing_error {updates : List Update} {w : World J R V}
    (h : ledger.Reached updates w.jobs) (failure : Failure) :
    ∃ w', outcome (service.closing key (.error failure)) w = (.error failure, w') ∧
      ledger.Reached (updates ++ if failure.isEndless then [] else [.failed failure.text]) w'.jobs := by
  rw [closing]
  cases hendless : failure.isEndless with
  | true =>
      refine ⟨w, rfl, ?_⟩
      rwa [if_pos rfl, List.append_nil]
  | false =>
      obtain ⟨jobs, houtcome, hreached⟩ := updateJob_reached hrecords h (.failed failure.text)
      have hrecord : outcome (service.recordFailure key failure) w =
          (.ok (), { w with jobs, readings := w.readings + 1 }) := by
        rw [recordFailure, outcome_bind, outcome_attempt, houtcome]
        rfl
      refine ⟨_, outcome_bind_of_ok hrecord, ?_⟩
      rwa [if_neg (by decide)]

/-- Once the outcome of the steps is closed, what was written may follow the reset of the record, and is
the whole plan or a beginning of it with the failure. -/
theorem closing_follows (hstart : ledger.start.Shows .cloning 0 0 0) {r : R}
    {result : Except Failure Summary} {w : World J R V}
    (h : service.Follows key ledger r result w.jobs) :
    ∃ plan n updates, ledger.Reached updates (outcome (service.closing key result) w).2.jobs ∧
      Proceeds ledger.start updates ∧ service.Learned key plan n r ∧
      (∀ summary, (outcome (service.closing key result) w).1 = .ok summary →
        n = plan.updates.length ∧ updates = plan.updates ∧ summary.branch = plan.branch ∧
          summary.files = plan.files ∧ summary.chunks = plan.chunks) ∧
      ∀ failure, (outcome (service.closing key result) w).1 = .error failure →
        n < plan.updates.length ∧
          updates = plan.updates.take n ++ if failure.isEndless then [] else [.failed failure.text] := by
  obtain ⟨plan, n, hreached, hlearned, hresult⟩ := h
  have hproceeds := proceeds_updates plan hstart
  cases result with
  | ok summary =>
      obtain ⟨hn, hsummary⟩ := hresult
      rw [hn, List.take_length] at hreached
      refine ⟨plan, n, plan.updates, hreached, hproceeds, hlearned, fun summary' heq => ?_,
        fun failure heq => ?_⟩
      · cases heq
        exact ⟨hn, rfl, hsummary⟩
      · cases heq
  | error failure =>
      obtain ⟨w', houtcome, hclosed⟩ := outcome_closing_error hrecords hreached failure
      rw [houtcome]
      refine ⟨plan, n, _, hclosed, ?_, hlearned, fun summary heq => ?_, fun failure' heq => ?_⟩
      · split
        · rw [List.append_nil]
          exact hproceeds.take n
        · exact hproceeds.failed failure.text (hstart.sound rfl (by decide) (by decide)) hresult
      · cases heq
      · cases heq
        exact ⟨hresult, rfl⟩

end Closing

/-- Whatever the collaborators do, a run on a job store that keeps the records of its key writes its
plan as far as it comes, and says in the record how it ended. -/
theorem run_checkpoints {stored : J → Option Job} {written : J → List Update}
    (hrecords : service.jobs.Records key stored written) (w : World J R V) :
    ∃ start plan n stamped,
      service.RunTrail key stored written w (outcome (service.run key) w).1
        (outcome (service.run key) w).2.jobs start plan n stamped := by
  obtain ⟨earlier, jobs, hstart, hstored, hwritten⟩ :=
    hrecords.startRun (repoUrl key.repo) (service.clock w.readings).seconds w.jobs
  generalize hreset : earlier.reset .cloning (repoUrl key.repo) (service.clock w.readings).seconds =
    start at hstart hstored
  have hshows : start.Shows .cloning 0 0 0 := hreset ▸ shows_reset _ _ _
  let ledger : Ledger J :=
    ⟨stored, written, written w.jobs ++ [Memory.startUpdate (repoUrl key.repo)], start⟩
  let w₁ : World J R V :=
    { w with jobs, readings := w.readings + 1, reports := w.reports ++ [firstEvent key.repo] }
  have hreached : ledger.Reached [] w₁.jobs :=
    ⟨[], rfl, hwritten.trans (List.append_nil _).symm, hstored⟩
  have hsteps := runSteps_reached hrecords hreached (show (firstEvent key.repo).percent = 0 from rfl)
  obtain ⟨plan, n, updates, ⟨stamped, rfl, hwritten', hstored'⟩, hproceeds, hlearned, hsuccess,
    hfailure⟩ := closing_follows hrecords hshows hsteps
  have hend := outcome_run_of_start service hstart
  rw [← hend] at hwritten' hstored' hsuccess hfailure
  refine ⟨start, plan, n, stamped, ⟨earlier, hreset.symm⟩, ?_, hstored', hlearned, hsuccess, hfailure,
    hproceeds.sound (hshows.sound rfl (by decide) (by decide)), fun _ _ h => hproceeds.progress_le h⟩
  exact hwritten'.trans (List.append_assoc _ _ _)

/-- A run over two files that succeeds on the job store in memory. -/
theorem run_checkpoints_twoFiles :
    (outcome (twoFilesService.run appKey) (bareWorld strayRecords)).1.toOption = some ⟨"main", 2, 1, 2, 1⟩ ∧
    ∃ start plan n stamped,
      twoFilesService.RunTrail appKey (·.get? appKey) Memory.history (bareWorld strayRecords)
        (outcome (twoFilesService.run appKey) (bareWorld strayRecords)).1
        (outcome (twoFilesService.run appKey) (bareWorld strayRecords)).2.jobs start plan n stamped :=
  ⟨summary_twoFiles.1, run_checkpoints (JobStore.memory_records appKey) (bareWorld strayRecords)⟩

end SourceIndex.Service
