import SourceIndex.Proofs.Service.Stages
import SourceIndex.Service.Lifecycle

/-! What the calls of a service do to the job record of their key, seen operation by operation. A call
that wants to index claims the key, and its run starts, writes checkpoints and ends with an update; a
call that wants to delete looks at the record, removes the chunks and then the record. Every call of the
service is such a sequence of operations on the store in memory. An operation either keeps the record of
its own run, or leaves the record alone, or removes it, or claims it when no run holds it. -/

namespace SourceIndex.Service
open Step Job

/-- How far a call has come. -/
inductive Call where
  /-- It wants to index and has not claimed the key yet. -/
  | starting
  | refused
  | claimed
  | running
  /-- A checkpoint could not be written, and the failure is still to be recorded. -/
  | failing
  | ended
  /-- It wants to delete and has not looked at the record yet. -/
  | checking
  /-- It removes the chunks, and then the record. -/
  | removing
  | left
  deriving DecidableEq, Repr

/-- The call has claimed the key and has not recorded yet how its run ended. -/
def Call.isActive : Call → Bool
  | .claimed | .running | .failing => true
  | _ => false

/-- What a call does next, with the times that its operation is told. -/
inductive Act where
  | claim (staleBefore now : Int)
  | startRun (now : Int)
  | checkpoint (update : Update) (now : Int)
  | complete (update : Update) (now : Int)
  /-- The run fails or is given up, which is recorded if it can be. -/
  | fail (message : String) (now : Int)
  | check (staleBefore : Int)
  | remove
  /-- The chunks cannot be removed, and the record stays. -/
  | giveUp
  deriving DecidableEq, Repr

/-- The record of the key, if there is one, is not stale. -/
def Unexpired (key : Key) (staleBefore : Int) (jobs : Memory) : Prop :=
  ∀ job, jobs.get? key = some job → staleBefore ≤ job.updatedAt

instance (key : Key) (staleBefore : Int) (jobs : Memory) : Decidable (Unexpired key staleBefore jobs) :=
  match h : jobs.get? key with
  | none => isTrue fun _ hjob => nomatch h.symm.trans hjob
  | some job =>
    if hfresh : staleBefore ≤ job.updatedAt then
      isTrue fun _ hjob => Option.some.inj (h.symm.trans hjob) ▸ hfresh
    else isFalse fun hall => hfresh (hall job h)

/-- What a call has come to and what the job store holds after the call did something, if it can do this
where it is. -/
def Act.apply (key : Key) : Act → Call → Memory → Option (Call × Memory)
  | .claim staleBefore now, .starting, jobs =>
    if Unexpired key staleBefore jobs then
      let (claimed, jobs) := outcome (Memory.claim key (repoUrl key.repo) staleBefore now) jobs
      some (if claimed.toOption.join.isSome then .claimed else .refused, jobs)
    else none
  | .startRun now, .claimed, jobs =>
    some (.running, (outcome (Memory.startRun key (repoUrl key.repo) now) jobs).2)
  | .checkpoint update now, .running, jobs =>
    if update.status.all Status.isActive then
      let (written, jobs) := outcome (Memory.update key update now) jobs
      some (if written.isOk then .running else .failing, jobs)
    else none
  | .complete update now, .running, jobs =>
    if update.status = some .completed then
      let (written, jobs) := outcome (Memory.update key update now) jobs
      some (if written.isOk then .ended else .failing, jobs)
    else none
  | .fail message now, call, jobs =>
    if call.isActive then some (.ended, (outcome (Memory.update key (.failed message) now) jobs).2)
    else none
  | .check staleBefore, .checking, jobs =>
    if Unexpired key staleBefore jobs then
      some (if (jobs.get? key).any (!·.holdsKey staleBefore) then .removing else .left, jobs)
    else none
  | .remove, .removing, jobs => some (.left, (outcome (Memory.delete key) jobs).2)
  | .giveUp, .removing, jobs => some (.left, jobs)
  | _, _, _ => none

section Apply

variable {key : Key} {call : Call} {update : Update} (now : Int) (jobs : Memory)

theorem apply_checkpoint (hstatus : update.status.all Status.isActive = true) :
    (Act.checkpoint update now).apply key .running jobs =
      some (if (outcome (Memory.update key update now) jobs).1.isOk then .running else .failing,
        (outcome (Memory.update key update now) jobs).2) := if_pos hstatus

theorem apply_complete (hstatus : update.status = some .completed) :
    (Act.complete update now).apply key .running jobs =
      some (if (outcome (Memory.update key update now) jobs).1.isOk then .ended else .failing,
        (outcome (Memory.update key update now) jobs).2) := if_pos hstatus

theorem apply_claim {staleBefore : Int} (hfresh : Unexpired key staleBefore jobs) :
    (Act.claim staleBefore now).apply key .starting jobs =
      let (claimed, jobs) := outcome (Memory.claim key (repoUrl key.repo) staleBefore now) jobs
      some (if claimed.toOption.join.isSome then .claimed else .refused, jobs) := if_pos hfresh

theorem apply_claim_of_none (staleBefore : Int) (hnone : jobs.get? key = none) :
    ∃ jobs', (Act.claim staleBefore now).apply key .starting jobs = some (.claimed, jobs') := by
  have hfree : Unexpired key staleBefore jobs := fun job hjob => nomatch hnone.symm.trans hjob
  have hclaim := apply_claim now jobs hfree
  rw [Memory.outcome_claim, hnone] at hclaim
  exact ⟨_, hclaim⟩

omit now in
theorem apply_check {staleBefore : Int} (hfresh : Unexpired key staleBefore jobs) :
    (Act.check staleBefore).apply key .checking jobs =
      some (if (jobs.get? key).any (!·.holdsKey staleBefore) then .removing else .left, jobs) :=
  if_pos hfresh

theorem apply_fail (hactive : call.isActive = true) (message : String) :
    (Act.fail message now).apply key call jobs =
      some (.ended, (outcome (Memory.update key (.failed message) now) jobs).2) := if_pos hactive

omit now in
theorem apply_remove {call' : Call} {jobs' : Memory}
    (h : Act.remove.apply key call jobs = some (call', jobs')) :
    call = .removing ∧ call' = .left ∧ jobs' = (outcome (Memory.delete key) jobs).2 := by
  cases call <;> cases h
  exact ⟨rfl, rfl, rfl⟩

end Apply

/-! ### The record of a run -/

/-- The record of the key is that of an active run. -/
def Held (key : Key) (jobs : Memory) : Prop :=
  ∃ job, jobs.get? key = some job ∧ job.status.isActive = true

theorem claim_of_held {key : Key} {staleBefore now : Int} {jobs : Memory} (url : String)
    (hfresh : Unexpired key staleBefore jobs) (hheld : Held key jobs) :
    outcome (Memory.claim key url staleBefore now) jobs = (.ok none, jobs) := by
  obtain ⟨job, hjob, hactive⟩ := hheld
  rw [Memory.outcome_claim, hjob, Option.any_some, if_pos]
  rw [Job.holdsKey, hactive, Bool.true_and]
  exact decide_eq_true (hfresh job hjob)

/-- A claim that is not refused finds no active run and leaves the record of one. -/
theorem claim_cases {key : Key} {staleBefore : Int} {jobs : Memory} (url : String) (now : Int)
    (hfresh : Unexpired key staleBefore jobs) :
    outcome (Memory.claim key url staleBefore now) jobs = (.ok none, jobs) ∨
      ∃ job jobs', outcome (Memory.claim key url staleBefore now) jobs = (.ok (some job), jobs') ∧
        ¬Held key jobs ∧ Held key jobs' := by
  by_cases hheld : Held key jobs
  · exact Or.inl (claim_of_held url hfresh hheld)
  · rw [Memory.outcome_claim]
    split
    · exact Or.inl rfl
    · refine Or.inr ⟨_, _, rfl, hheld, _, Memory.get?_put jobs ?_, rfl⟩
      exact Memory.found_key jobs key url now

theorem startRun_held (key : Key) (url : String) (now : Int) (jobs : Memory) :
    Held key (outcome (Memory.startRun key url now) jobs).2 := by
  rw [Memory.outcome_startRun]
  refine ⟨_, (Memory.get?_record _ _ _).trans (Memory.get?_put jobs ?_), rfl⟩
  exact Memory.found_key jobs key url now

/-- An update of the record of an active run is written, and the run stays active unless the update says
how it ended. -/
theorem update_of_held {key : Key} {jobs : Memory} (update : Update) (now : Int)
    (hheld : Held key jobs) :
    ∃ jobs', outcome (Memory.update key update now) jobs = (.ok (), jobs') ∧
      (update.status.all Status.isActive = true → Held key jobs') := by
  obtain ⟨job, hjob, hactive⟩ := hheld
  refine ⟨_, by rw [Memory.outcome_update, hjob], fun hstatus => ?_⟩
  refine ⟨_, (Memory.get?_record _ _ _).trans (Memory.get?_put jobs ?_), ?_⟩
  · rw [apply_key, Memory.key_of_get? hjob]
  · cases hnew : update.status with
    | none => rwa [Job.apply, hnew]
    | some status =>
        rw [hnew] at hstatus
        rwa [Job.apply, hnew]

/-- What a call does keeps the record of its own run, leaves the record alone, removes it, or claims it
when no run holds it. -/
theorem Act.apply_cases {key : Key} {act : Act} {call call' : Call} {jobs jobs' : Memory}
    (h : act.apply key call jobs = some (call', jobs')) :
    (call.isActive = true ∧ (call'.isActive = true → Held key jobs → Held key jobs')) ∨
    (call.isActive = false ∧ call'.isActive = false ∧ (act = .remove ∨ jobs' = jobs)) ∨
    (call.isActive = false ∧ call'.isActive = true ∧ ¬Held key jobs ∧ Held key jobs') := by
  unfold Act.apply at h
  split at h
  case h_1 staleBefore now =>
      obtain ⟨hfresh, h⟩ := Option.ite_none_right_eq_some.mp h
      rcases claim_cases (repoUrl key.repo) now hfresh with hclaim | ⟨job, jobs'', hclaim, hheld⟩
      · rw [hclaim] at h
        cases h
        exact Or.inr (Or.inl ⟨rfl, rfl, Or.inr rfl⟩)
      · rw [hclaim] at h
        cases h
        exact Or.inr (Or.inr ⟨rfl, rfl, hheld⟩)
  case h_2 now =>
      cases h
      exact Or.inl ⟨rfl, fun _ _ => startRun_held key _ now jobs⟩
  case h_3 update now =>
      obtain ⟨hstatus, h⟩ := Option.ite_none_right_eq_some.mp h
      refine Or.inl ⟨rfl, fun _ hheld => ?_⟩
      obtain ⟨jobs'', hupdate, hheld⟩ := update_of_held update now hheld
      rw [hupdate] at h
      cases h
      exact hheld hstatus
  case h_4 update now =>
      obtain ⟨-, h⟩ := Option.ite_none_right_eq_some.mp h
      refine Or.inl ⟨rfl, fun hactive hheld => ?_⟩
      obtain ⟨jobs'', hupdate, -⟩ := update_of_held update now hheld
      rw [hupdate] at h
      cases h
      cases hactive
  case h_5 message now =>
      obtain ⟨hactive, h⟩ := Option.ite_none_right_eq_some.mp h
      cases h
      exact Or.inl ⟨hactive, nofun⟩
  case h_6 staleBefore =>
      obtain ⟨-, h⟩ := Option.ite_none_right_eq_some.mp h
      cases h
      refine Or.inr (Or.inl ⟨rfl, ?_, Or.inr rfl⟩)
      split <;> rfl
  case h_7 =>
      cases h
      exact Or.inr (Or.inl ⟨rfl, rfl, Or.inl rfl⟩)
  case h_8 =>
      cases h
      exact Or.inr (Or.inl ⟨rfl, rfl, Or.inr rfl⟩)
  case h_9 => cases h

/-! ### The steps of a run -/

/-- A call comes from one point to another, with what this makes of the job store. -/
inductive Leads (key : Key) : Call → Memory → Call → Memory → Prop where
  | refl (call : Call) (jobs : Memory) : Leads key call jobs call jobs
  | act {act : Act} {call call' call'' : Call} {jobs jobs' jobs'' : Memory}
      (h : act.apply key call jobs = some (call', jobs')) (hrest : Leads key call' jobs' call'' jobs'') :
      Leads key call jobs call'' jobs''

theorem Leads.of_act {key : Key} (act : Act) {call call' : Call} {jobs jobs' : Memory}
    (h : act.apply key call jobs = some (call', jobs')) : Leads key call jobs call' jobs' :=
  .act h (.refl call' jobs')

theorem Leads.trans {key : Key} {call call' call'' : Call} {jobs jobs' jobs'' : Memory}
    (h : Leads key call jobs call' jobs') (h' : Leads key call' jobs' call'' jobs'') :
    Leads key call jobs call'' jobs'' := by
  induction h with
  | refl => exact h'
  | act hact _ ih => exact .act hact (ih h')

variable {R V : Type} {α β : Type}

/-- A step of a run brings it to some point if it gives a value, and leaves it active if it fails. -/
def Brings (key : Key) (call : Call) (step : Action (World Memory R V) α) : Prop :=
  ∀ w, match (outcome step w).1 with
    | .ok _ => Leads key .running w.jobs call (outcome step w).2.jobs
    | .error _ => ∃ call', call'.isActive = true ∧
        Leads key .running w.jobs call' (outcome step w).2.jobs

section Steps

variable {key : Key} {call : Call}

theorem brings_bind {step : Action (World Memory R V) α} {next : α → Action (World Memory R V) β}
    (hstep : Brings key .running step) (hnext : ∀ a, Brings key call (next a)) :
    Brings key call (step >>= next) := by
  intro w
  have hfirst := hstep w
  rw [outcome_bind]
  rcases h : outcome step w with ⟨failure | a, w'⟩
  · rw [h] at hfirst
    exact hfirst
  · rw [h] at hfirst
    have hsecond := hnext a w'
    dsimp only at hfirst ⊢
    rcases h' : outcome (next a) w' with ⟨failure | b, w''⟩
    · rw [h'] at hsecond
      obtain ⟨call', hactive, hleads⟩ := hsecond
      exact ⟨call', hactive, hfirst.trans hleads⟩
    · rw [h'] at hsecond
      exact hfirst.trans hsecond

theorem brings_map {step : Action (World Memory R V) α} (f : α → β) (hstep : Brings key call step) :
    Brings key call (f <$> step) := by
  intro w
  have h := hstep w
  rw [outcome_map]
  generalize outcome step w = result at h ⊢
  obtain ⟨_ | _, w'⟩ := result
  · exact h
  · exact h

theorem brings_during {step : Action (World Memory R V) α} (attempt : String)
    (hstep : Brings key call step) : Brings key call (step.during attempt) := by
  intro w
  have h := hstep w
  rw [Action.during, outcome_mapError]
  generalize outcome step w = result at h ⊢
  obtain ⟨_ | _, w'⟩ := result
  · exact h
  · exact h

/-- A step that leaves the job store alone. -/
theorem brings_of_jobs {step : Action (World Memory R V) α}
    (h : ∀ w, (outcome step w).2.jobs = w.jobs) : Brings key .running step := by
  intro w
  rw [h w]
  split
  · exact .refl .running w.jobs
  · exact ⟨.running, rfl, .refl .running w.jobs⟩

theorem brings_pure (a : α) : Brings key .running (pure a : Action (World Memory R V) α) :=
  brings_of_jobs fun _ => rfl

theorem brings_onHost (step : Action R α) :
    Brings key .running (World.onHost step : Action (World Memory R V) α) :=
  brings_of_jobs fun _ => rfl

theorem brings_onIndex (step : Action V α) :
    Brings key .running (World.onIndex step : Action (World Memory R V) α) :=
  brings_of_jobs fun _ => rfl

theorem brings_repoName (repo : String) :
    Brings key .running (repoName repo : Action (World Memory R V) RepoName) := by
  rw [repoName]
  cases RepoName.ofFullName? repo with
  | none => exact brings_of_jobs fun _ => rfl
  | some name => exact brings_pure name

theorem brings_userToken (service : Service Memory R V) (user : String) :
    Brings key .running (service.userToken user) := by
  rw [userToken]
  refine brings_bind (brings_during _ (brings_onHost _)) fun found => ?_
  cases found with
  | none => exact brings_of_jobs fun _ => rfl
  | some token => exact brings_pure token

end Steps

section Memory

variable {service : Service Memory R V} (hstore : service.jobs = Memory.store) {key : Key}
include hstore

theorem outcome_updateJob_memory (update : Update) (w : World Memory R V) :
    outcome (service.updateJob key update) w =
      let result := outcome (Memory.update key update (service.clock w.readings).seconds) w.jobs
      (result.1, { w with jobs := result.2, readings := w.readings + 1 }) := by
  rw [outcome_updateJob, hstore]
  rfl

/-- The update of a record is a checkpoint of the run, or its end. -/
theorem brings_updateJob {call : Call} {update : Update}
    (hact : ∀ now jobs, ∃ act : Act, act.apply key .running jobs =
      some (if (outcome (Memory.update key update now) jobs).1.isOk then call else .failing,
        (outcome (Memory.update key update now) jobs).2)) :
    Brings key call (service.updateJob key update) := by
  intro w
  obtain ⟨act, happly⟩ := hact (service.clock w.readings).seconds w.jobs
  rw [outcome_updateJob_memory hstore]
  dsimp only
  generalize outcome (Memory.update key update (service.clock w.readings).seconds) w.jobs = result
    at happly ⊢
  obtain ⟨_ | _, jobs⟩ := result
  · exact ⟨.failing, rfl, .of_act _ happly⟩
  · exact .of_act _ happly

/-- An update that does not say how the run ended is a checkpoint. -/
theorem brings_advance {event : Progress.Event} {update : Update}
    (hstatus : update.status.all Status.isActive = true) :
    Brings key .running (service.advance key event update) := by
  refine brings_bind (brings_during _ (brings_updateJob hstore fun now jobs => ?_)) fun _ => ?_
  · have hsame : (checkpoint event update).status.all Status.isActive = true := hstatus
    exact ⟨_, apply_checkpoint now jobs hsame⟩
  · exact brings_of_jobs fun _ => rfl

theorem brings_finished {event : Progress.Event} {time : Time} :
    Brings key .ended (service.advance key event (finished time)) := by
  have hupdate : Brings key .ended (service.updateJob key (checkpoint event (finished time))) :=
    brings_updateJob hstore fun now _ => ⟨_, apply_complete now _ rfl⟩
  intro w
  have h := brings_during "Failed to record indexing progress" hupdate w
  rw [advance, outcome_bind]
  generalize outcome (Action.during _ (service.updateJob key _)) w = result at h ⊢
  obtain ⟨_ | _, w'⟩ := result
  · exact h
  · exact h

theorem brings_fetchStage (event : Progress.Event) :
    Brings key .running (service.fetchStage key event) := by
  refine brings_bind (brings_repoName key.repo) fun name => ?_
  refine brings_bind (brings_userToken service key.user) fun token => ?_
  refine brings_bind (brings_during _ (brings_onHost _)) fun branch => ?_
  refine brings_bind (brings_advance hstore rfl) fun event => ?_
  refine brings_bind (brings_during _ (brings_onHost _)) fun archive => ?_
  refine brings_bind (brings_advance hstore rfl) fun event => ?_
  refine brings_bind (brings_during _ (brings_of_jobs fun w => ?_)) fun contents => ?_
  · rw [outcome_liftExcept]
  · exact brings_bind (brings_advance hstore rfl) fun event => brings_pure _

theorem brings_extractions (context : Chunk.Context) (total : Nat) (files : List (String × String)) :
    ∀ done event, Brings key .running (service.extractions key context total done event files) := by
  induction files with
  | nil => exact fun done event => brings_pure _
  | cons file rest ih =>
      intro done event
      obtain ⟨path, text⟩ := file
      rw [extractions_cons]
      refine brings_bind ?_ fun event => brings_bind (ih _ event) fun _ => brings_pure _
      rw [fileCheckpoint]
      split
      · exact brings_advance hstore rfl
      · exact brings_pure event

theorem brings_storeBatches (total : Nat) (batches : List (List Chunk)) :
    ∀ done event, Brings key .running (service.storeBatches key total done event batches) := by
  induction batches with
  | nil => exact fun done event => brings_pure _
  | cons batch rest ih =>
      intro done event
      rw [storeBatches_cons]
      refine brings_bind (brings_during _ (brings_onIndex _)) fun _ => ?_
      exact brings_bind (brings_advance hstore rfl) fun event => ih _ event

theorem brings_rebuildStage (branch : String) (contents : Archive.Contents) (event : Progress.Event) :
    Brings key .ended (service.rebuildStage key branch contents event) := by
  refine brings_bind (brings_onIndex _) fun deleted => ?_
  refine brings_bind (brings_extractions hstore _ _ _ _ _) fun found => ?_
  refine brings_bind (brings_advance hstore rfl) fun event => ?_
  refine brings_bind (brings_storeBatches hstore _ _ _ _) fun event => ?_
  refine brings_bind (brings_of_jobs fun _ => rfl) fun now => ?_
  rw [bind_pure_comp]
  exact brings_map _ (brings_finished hstore)

theorem brings_runSteps (event : Progress.Event) : Brings key .ended (service.runSteps key event) := by
  rw [runSteps_eq]
  exact brings_bind (brings_fetchStage hstore event) fun _ => brings_rebuildStage hstore _ _ _

/-! ### The calls of the service -/

/-- A failure is recorded by whatever run is active, as far as it can be. -/
theorem recordFailure_leads (key : Key) {call : Call} (hactive : call.isActive = true)
    (failure : Failure) (w : World Memory R V) :
    ∃ w', outcome (service.recordFailure key failure) w = (.ok (), w') ∧
      Leads key call w.jobs .ended w'.jobs := by
  have hresult : outcome (service.recordFailure key failure) w =
      (.ok (), (outcome (service.updateJob key (.failed failure.text)) w).2) := by
    rw [recordFailure, outcome_bind, outcome_attempt]
    rfl
  refine ⟨_, hresult, ?_⟩
  rw [outcome_updateJob_memory hstore]
  exact .of_act _ (apply_fail _ w.jobs hactive failure.text)

/-- A run ends, unless it fails without an end; then it stays active. -/
theorem run_leads (key : Key) (w : World Memory R V) :
    (∃ failure, (outcome (service.run key) w).1 = .error failure ∧ failure.isEndless = true ∧
      ∃ call, call.isActive = true ∧
        Leads key .claimed w.jobs call (outcome (service.run key) w).2.jobs) ∨
    ((∀ failure, (outcome (service.run key) w).1 = .error failure → failure.isEndless = false) ∧
      Leads key .claimed w.jobs .ended (outcome (service.run key) w).2.jobs) := by
  obtain ⟨start, jobs, hstart⟩ : ∃ start jobs, outcome (Memory.startRun key (repoUrl key.repo)
      (service.clock w.readings).seconds) w.jobs = (.ok start, jobs) :=
    ⟨_, _, Memory.outcome_startRun key _ _ w.jobs⟩
  have hfirst : Leads key .claimed w.jobs .running jobs := by
    refine .of_act (.startRun (service.clock w.readings).seconds) ?_
    rw [Act.apply, hstart]
  have hreset : outcome (service.jobs.startRun key (repoUrl key.repo)
      (service.clock w.readings).seconds) w.jobs = (.ok start, jobs) := by
    rw [hstore]
    exact hstart
  rw [outcome_run_of_start service hreset]
  have hsteps := (brings_runSteps hstore (firstEvent key.repo) : Brings key .ended _)
    { w with jobs, readings := w.readings + 1, reports := w.reports ++ [firstEvent key.repo] }
  generalize outcome (service.runSteps key (firstEvent key.repo)) _ = result at hsteps ⊢
  obtain ⟨failure | summary, w₁⟩ := result
  · obtain ⟨call, hactive, hleads⟩ := hsteps
    dsimp only
    rw [closing]
    cases hendless : failure.isEndless with
    | true => exact Or.inl ⟨failure, rfl, hendless, call, hactive, hfirst.trans hleads⟩
    | false =>
        obtain ⟨w₂, hrecord, hlast⟩ := recordFailure_leads hstore key hactive failure w₁
        rw [Bool.not_false, if_pos rfl, outcome_bind_of_ok hrecord, outcome_throw]
        refine Or.inr ⟨fun failure' heq => ?_, (hfirst.trans hleads).trans hlast⟩
        cases heq
        exact hendless
  · exact Or.inr ⟨fun _ heq => (nomatch heq), hfirst.trans hsteps⟩

/-- A run that is given up when it has no end goes from its claim to its end. -/
theorem runInTime_leads (key : Key) (w : World Memory R V) :
    Leads key .claimed w.jobs .ended (outcome (service.runInTime key) w).2.jobs := by
  rw [runInTime, outcome_bind, outcome_attempt]
  dsimp only
  rcases run_leads hstore key w with
    ⟨failure, hresult, hendless, call, hactive, hleads⟩ | ⟨hend, hleads⟩
  · obtain ⟨w', hrecord, hlast⟩ :=
      recordFailure_leads hstore key hactive service.endedLate (outcome (service.run key) w).2
    rw [hresult]
    dsimp only
    rw [if_pos hendless, outcome_bind_of_ok hrecord]
    exact hleads.trans hlast
  · cases hresult : (outcome (service.run key) w).1 with
    | ok summary => exact hleads
    | error failure =>
        dsimp only
        rw [if_neg (by rw [hend failure hresult]; decide)]
        exact hleads

/-- A request to index claims the key and waits to run, or is refused. -/
theorem start_leads {w : World Memory R V} (hfresh : Unexpired key (service.oldest w.readings) w.jobs) :
    ∃ call, Leads key .starting w.jobs call (outcome (service.start key) w).2.jobs ∧
      (call = .claimed ∧ (outcome (service.start key) w).2.waiting = w.waiting ++ [key] ∨
        call = .refused ∧ (outcome (service.start key) w).1 = .ok none) := by
  have hclaim : outcome (service.claim key) w =
      let result := outcome (Memory.claim key (repoUrl key.repo) (service.oldest w.readings)
        (service.clock (w.readings + 1)).seconds) w.jobs
      (result.1, { w with jobs := result.2, readings := w.readings + 2 }) := by
    rw [claim, outcome_bind_of_ok (outcome_staleBefore w), outcome_bind_of_ok (outcome_now _), hstore]
    rfl
  have happly := apply_claim (service.clock (w.readings + 1)).seconds w.jobs hfresh
  rcases claim_cases (repoUrl key.repo) (service.clock (w.readings + 1)).seconds hfresh with
    hrefused | ⟨job, jobs, hclaimed, -⟩
  · rw [hrefused] at hclaim happly
    refine ⟨.refused, ?_⟩
    rw [start, outcome_bind_of_ok hclaim]
    exact ⟨.of_act _ happly, Or.inr ⟨rfl, rfl⟩⟩
  · rw [hclaimed] at hclaim happly
    refine ⟨.claimed, ?_⟩
    rw [start, outcome_bind_of_ok hclaim]
    exact ⟨.of_act _ happly, Or.inl ⟨rfl, rfl⟩⟩

/-- A request to delete looks at the record, and then removes it after the chunks or leaves it. -/
theorem delete_leads {w : World Memory R V} (hfresh : Unexpired key (service.oldest w.readings) w.jobs) :
    Leads key .checking w.jobs .left (outcome (service.delete key) w).2.jobs := by
  have hget : outcome (World.onJobs (service.jobs.get key)) w = (.ok (w.jobs.get? key), w) := by
    rw [hstore]
    rfl
  have happly := apply_check w.jobs hfresh
  rw [delete, outcome_bind_of_ok hget]
  cases hjob : w.jobs.get? key with
  | none =>
      rw [hjob] at happly
      exact .of_act _ happly
  | some job =>
      rw [hjob, Option.any_some] at happly
      dsimp only
      rw [outcome_bind_of_ok (outcome_staleBefore w)]
      cases hholds : job.holdsKey (service.oldest w.readings) with
      | true =>
          rw [hholds] at happly
          exact .of_act _ happly
      | false =>
          rw [hholds] at happly
          rw [if_neg (by decide)]
          refine .act happly ?_
          rw [outcome_bind, World.onIndex, outcome_within]
          rcases outcome (VectorIndex.deleteChunks service.index _ _ _) _ with ⟨failure | count, v⟩
          · exact .of_act .giveUp rfl
          · rw [hstore]
            exact .of_act .remove rfl

end Memory

end SourceIndex.Service
