import SourceIndex.Proofs.Job.Histories

/-! Claims exclude each other in both job stores. In the store in memory a key is held by an active record,
in the table by a row whose status names an active one; the time of the last write stands in both. -/

namespace SourceIndex
open Step

namespace Job

/-- An update that does not end the run of an active record leaves it active. -/
theorem isActive_getD {status : Status} (hactive : status.isActive = true) {update : Update}
    (hkeeps : ∀ status', update.status = some status' → status'.isTerminal = false) :
    (update.status.getD status).isActive = true := by
  cases hstatus : update.status with
  | none => exact hactive
  | some status' =>
      rw [Option.getD_some, Status.isActive, hkeeps status' hstatus]
      rfl

/-! ### The store in memory -/

namespace Memory

/-- The record of a key is that of an active run, and was last written at a time. -/
def HeldSince (key : Key) (t : Int) (memory : Memory) : Prop :=
  ∃ job, memory.get? key = some job ∧ job.status.isActive = true ∧ job.updatedAt = t

theorem heldSince_put {key : Key} {job : Job} (memory : Memory) (hkey : job.key = key)
    (hactive : job.status.isActive = true) : HeldSince key job.updatedAt (memory.put job) :=
  ⟨job, get?_put memory hkey, hactive, rfl⟩

theorem perform_other (memory : Memory) {key : Key} {request : Request}
    (h : request.target? ≠ some key) :
    (outcome (store.perform request) memory).2.get? key = memory.get? key := by
  cases request with
  | claim other url staleBefore now =>
      rw [JobStore.perform, outcome_map]
      exact claim_other memory (Request.ne_of_target? h rfl) url staleBefore now
  | startRun other url now =>
      rw [JobStore.perform, outcome_map]
      exact startRun_other memory (Request.ne_of_target? h rfl) url now
  | update other update now =>
      rw [JobStore.perform, outcome_map]
      exact update_other memory (Request.ne_of_target? h rfl) update now
  | get other => rfl
  | list user => rfl
  | delete other =>
      rw [JobStore.perform, outcome_map]
      exact delete_other memory (Request.ne_of_target? h rfl)

theorem guards (key : Key) : store.Guards key (HeldSince key) where
  claimed {url staleBefore now job memory memory'} h := by
    change outcome (claim key url staleBefore now) memory = _ at h
    rw [outcome_claim] at h
    split at h
    · cases h
    · cases h
      have hkey : ((memory.found key url now).reset .pending url now).key = key :=
        found_key memory key url now
      exact heldSince_put memory hkey rfl
  claim {memory t} url staleBefore now hheld := by
    obtain ⟨job, hget, hactive, rfl⟩ := hheld
    change outcome (claim key url staleBefore now) memory = _ ∨
      _ ∧ ∃ job s', outcome (claim key url staleBefore now) memory = _
    rw [outcome_claim, hget, Option.any_some, holdsKey, hactive, Bool.true_and]
    by_cases hstale : job.updatedAt < staleBefore
    · refine Or.inr ⟨hstale, _, _, if_neg ?_⟩
      simpa using hstale
    · refine Or.inl (if_pos ?_)
      simpa using hstale
  startRun {memory t} url now _ := by
    have hkey : ((memory.found key url now).reset .cloning url now).key = key :=
      found_key memory key url now
    exact ⟨_, _, outcome_startRun key url now memory, heldSince_put memory hkey rfl⟩
  update {memory t} update now hheld := by
    obtain ⟨job, hget, hactive, rfl⟩ := hheld
    have hkey : (job.apply update now).key = key := (job.apply_key update now).trans (key_of_get? hget)
    have houtcome := outcome_update key update now memory
    rw [hget] at houtcome
    exact ⟨_, houtcome, fun hkeeps => heldSince_put memory hkey (isActive_getD hactive hkeeps)⟩
  delete {memory t} hheld := by
    obtain ⟨job, hget, -⟩ := hheld
    have houtcome := outcome_delete key memory
    rw [hget] at houtcome
    exact ⟨_, houtcome⟩
  other {request memory t} htarget hheld := by
    obtain ⟨job, hget, hactive⟩ := hheld
    exact ⟨job, (perform_other memory htarget).trans hget, hactive⟩

theorem eq_of_claim_none {memory memory' : Memory} {key : Key} {url : String} {staleBefore now : Int}
    (h : outcome (claim key url staleBefore now) memory = (.ok none, memory')) : memory' = memory := by
  rw [outcome_claim] at h
  split at h
  · cases h
    rfl
  · cases h

end Memory

/-! ### The store in a table -/

namespace Table

/-- The row of a key is that of an active run, and was last written at a time. -/
def HeldSince (key : Key) (t : Int) (table : Table) : Prop :=
  table.gone = false ∧ ∃ (row : Row) (status : Status), table.get? key = some row ∧
    row.status = status.name ∧ status.isActive = true ∧ row.updatedAt = t

theorem heldSince_put {key : Key} {row : Row} {table : Table} (hopen : table.gone = false)
    (hkey : row.key = key) {status : Status} (hstatus : row.status = status.name)
    (hactive : status.isActive = true) : HeldSince key row.updatedAt (table.put row) :=
  ⟨hopen, row, status, get?_put table hkey, hstatus, hactive, rfl⟩

theorem perform_other (table : Table) {key : Key} {request : Request}
    (h : request.target? ≠ some key) :
    (outcome (store.perform request) table).2.gone = table.gone ∧
      (outcome (store.perform request) table).2.get? key = table.get? key := by
  cases request with
  | claim other url staleBefore now =>
      have hrewritten := claim_rewritten other url staleBefore now table
      rw [JobStore.perform, outcome_map]
      exact ⟨hrewritten.gone_eq, hrewritten.get?_eq (Request.ne_of_target? h rfl)⟩
  | startRun other url now =>
      have hrewritten := startRun_rewritten other url now table
      rw [JobStore.perform, outcome_map]
      exact ⟨hrewritten.gone_eq, hrewritten.get?_eq (Request.ne_of_target? h rfl)⟩
  | update other update now =>
      have hrewritten := update_rewritten other update now table
      rw [JobStore.perform, outcome_map]
      exact ⟨hrewritten.gone_eq, hrewritten.get?_eq (Request.ne_of_target? h rfl)⟩
  | get other =>
      have hsame : (outcome (fetch other) table).2 = table := congrArg Prod.snd (outcome_fetch other table)
      rw [JobStore.perform, outcome_map]
      exact ⟨congrArg Table.gone hsame, congrArg (Table.get? · key) hsame⟩
  | list user =>
      have hsame : (outcome (list user) table).2 = table := list_state user table
      rw [JobStore.perform, outcome_map]
      exact ⟨congrArg Table.gone hsame, congrArg (Table.get? · key) hsame⟩
  | delete other =>
      have hrewritten := delete_rewritten other table
      rw [JobStore.perform, outcome_map]
      exact ⟨hrewritten.gone_eq, hrewritten.get?_eq (Request.ne_of_target? h rfl)⟩

theorem guards (key : Key) : store.Guards key (HeldSince key) where
  claimed {url staleBefore now job table table'} h := by
    have hopen : table.gone = false := open_of_ok h
    change outcome (claim key url staleBefore now) table = _ at h
    rw [outcome_claim hopen] at h
    split at h
    · cases h
    · rw [Prod.mk.injEq] at h
      have hkey : ((table.found key url now).reset url .pending now).key = key :=
        found_key table key url now
      rw [← h.2]
      exact heldSince_put hopen hkey (Row.status_reset (table.found key url now) url .pending now) rfl
  claim {table t} url staleBefore now hheld := by
    obtain ⟨hopen, row, status, hget, hstatus, hactive, rfl⟩ := hheld
    change outcome (claim key url staleBefore now) table = _ ∨
      _ ∧ ∃ job s', outcome (claim key url staleBefore now) table = _
    have hterminal : status.isTerminal = false := by simpa [Status.isActive] using hactive
    rw [outcome_claim hopen, hget, Option.any_some, Row.isFree_of_status hstatus, hterminal,
      Bool.false_or]
    by_cases hstale : row.updatedAt < staleBefore
    · obtain ⟨job, hread⟩ :=
        Row.toJob_of_status (Row.status_reset (table.found key url now) url .pending now)
      rw [if_neg (by simpa using hstale), hread]
      exact Or.inr ⟨hstale, job, _, rfl⟩
    · exact Or.inl (if_pos (by simpa using hstale))
  startRun {table t} url now hheld := by
    obtain ⟨hopen, -⟩ := hheld
    have hkey : ((table.found key url now).reset url .cloning now).key = key :=
      found_key table key url now
    have hstatus := Row.status_reset (table.found key url now) url .cloning now
    obtain ⟨job, hread⟩ := Row.toJob_of_status hstatus
    refine ⟨job, _, ?_, heldSince_put hopen hkey hstatus rfl⟩
    exact (outcome_startRun hopen key url now).trans (by rw [hread])
  update {table t} update now hheld := by
    obtain ⟨hopen, row, status, hget, hstatus, hactive, rfl⟩ := hheld
    have hkey : (row.apply update now).key = key := (row.apply_key update now).trans (key_of_get? hget)
    have hname : (row.apply update now).status = (update.status.getD status).name := by
      rw [Row.apply, hstatus]
      cases update.status <;> rfl
    have houtcome := outcome_update hopen key update now
    rw [hget] at houtcome
    exact ⟨_, houtcome, fun hkeeps => heldSince_put hopen hkey hname (isActive_getD hactive hkeeps)⟩
  delete {table t} hheld := by
    obtain ⟨hopen, row, status, hget, -⟩ := hheld
    have houtcome := outcome_delete hopen key
    rw [hget] at houtcome
    exact ⟨_, houtcome⟩
  other {request table t} htarget hheld := by
    obtain ⟨hopen, row, status, hget, hrest⟩ := hheld
    obtain ⟨hgone, hsame⟩ := perform_other table htarget
    exact ⟨hgone.trans hopen, row, status, hsame.trans hget, hrest⟩

theorem eq_of_claim_none {table table' : Table} {key : Key} {url : String} {staleBefore now : Int}
    (h : outcome (claim key url staleBefore now) table = (.ok none, table')) : table' = table := by
  have hopen : table.gone = false := open_of_ok h
  rw [outcome_claim hopen] at h
  split at h
  · cases h
    rfl
  · rw [Prod.mk.injEq] at h
    rcases hread : ((table.found key url now).reset url .pending now).toJob with failure | job
    · rw [hread] at h
      cases h.1
    · rw [hread] at h
      cases h.1

end Table
end Job

/-! ### Both stores -/

/-- Reading the records of a store changes nothing, and neither does a claim that is refused. -/
structure JobStore.ReadsKeep {J : Type} (store : JobStore J) : Prop where
  get (key : Job.Key) (s : J) : (outcome (store.get key) s).2 = s
  list (user : String) (s : J) : (outcome (store.list user) s).2 = s
  refused {key : Job.Key} {url : String} {staleBefore now : Int} {s s' : J}
    (h : outcome (store.claim key url staleBefore now) s = (.ok none, s')) : s' = s

theorem Job.Memory.readsKeep : Job.Memory.store.ReadsKeep where
  get _ _ := rfl
  list _ _ := rfl
  refused := eq_of_claim_none

theorem Job.Table.readsKeep : Job.Table.store.ReadsKeep where
  get key table := congrArg Prod.snd (outcome_fetch key table)
  list := list_state
  refused := eq_of_claim_none

namespace JobStore
open Job

/-- In both stores, whatever they hold at first and whatever the clock says: of two claims of a key that
succeed, the second one comes after a release of the key, or it takes the last write to it for too old. -/
theorem claims_exclusive : Memory.store.ClaimsExclusive ∧ Table.store.ClaimsExclusive := by
  constructor
  · exact claimsExclusive_of_guards Memory.guards Memory.eq_of_claim_none
  · exact claimsExclusive_of_guards Table.guards Table.eq_of_claim_none

end JobStore
end SourceIndex
