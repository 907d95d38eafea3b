import SourceIndex.Proofs.Job.Histories

/-! The store in a table answers like the store in memory, but for what a row cannot hold. Every record has
a row, and every operation does to the rows what it does to the records; so the table is at all times the
rows of the records in memory, and what is read from it are those records with their progress capped, their
largest counters lost and their times cut to whole seconds. -/

namespace SourceIndex
open Step

namespace Job

/-! ### Rows of records -/

/-- A counter that was stored as a signed word: from half of its range on it is negative, and read as
zero. -/
def readCounter (n : Nat) : Nat := if n < Nat.pow 2 63 then n else 0

/-- A record as it is read from the row that it was stored as. -/
def readBack (job : Job) : Job :=
  { job with
    progress := min job.progress 100
    totalFiles := readCounter job.totalFiles
    indexedFiles := readCounter job.indexedFiles
    lastIndexed := job.lastIndexed.map fun time => ⟨time.seconds, 0⟩ }

/-- The row that a record is stored as. -/
def Row.ofJob (job : Job) : Row :=
  { key := job.key
    url := job.url
    branch := job.branch
    status := job.status.name
    progress := job.progress
    totalFiles := toColumn job.totalFiles
    indexedFiles := toColumn job.indexedFiles
    error := job.error
    lastIndexed := job.lastIndexed.map Time.seconds
    updatedAt := job.updatedAt }

/-- Counters are words of 64 bits, and times fall into the years that are allowed. -/
structure Update.Fits (update : Update) : Prop where
  totalFiles : ∀ n, update.totalFiles = some n → n < Nat.pow 2 64
  indexedFiles : ∀ n, update.indexedFiles = some n → n < Nat.pow 2 64
  lastIndexed : ∀ time, update.lastIndexed = some time → time.inRange = true

structure Fits (job : Job) : Prop where
  totalFiles : job.totalFiles < Nat.pow 2 64
  indexedFiles : job.indexedFiles < Nat.pow 2 64
  lastIndexed : ∀ time, job.lastIndexed = some time → time.inRange = true

theorem fits_fresh (key : Key) (url : String) (now : Int) : (Job.fresh key url now).Fits :=
  ⟨Nat.pow_pos Nat.two_pos, Nat.pow_pos Nat.two_pos, nofun⟩

theorem Fits.reset {job : Job} (h : job.Fits) (status : Status) (url : String) (now : Int) :
    (job.reset status url now).Fits :=
  ⟨Nat.pow_pos Nat.two_pos, Nat.pow_pos Nat.two_pos, h.lastIndexed⟩

theorem Fits.apply {job : Job} (h : job.Fits) {update : Update} (hupdate : update.Fits) (now : Int) :
    (job.apply update now).Fits := by
  refine ⟨?_, ?_, fun time htime => ?_⟩
  · rw [Job.apply]
    cases hn : update.totalFiles with
    | none => exact h.totalFiles
    | some n => exact hupdate.totalFiles n hn
  · rw [Job.apply]
    cases hn : update.indexedFiles with
    | none => exact h.indexedFiles
    | some n => exact hupdate.indexedFiles n hn
  · rw [Job.apply] at htime
    cases hn : update.lastIndexed with
    | none =>
        rw [hn] at htime
        exact h.lastIndexed time htime
    | some new =>
        rw [hn] at htime
        cases htime
        exact hupdate.lastIndexed time hn

theorem toColumn_eq (n : Nat) : toColumn n = Int.bmod n 18446744073709551616 := by
  have hword : Nat.pow 2 64 = 18446744073709551616 := by rw [Nat.pow_eq]
  unfold toColumn
  rw [hword]

@[simp] theorem toColumn_zero : toColumn 0 = 0 := by
  rw [toColumn_eq, Int.natCast_zero, Int.zero_bmod]

theorem toNat_toColumn {n : Nat} (h : n < Nat.pow 2 64) : (toColumn n).toNat = readCounter n := by
  have hhalf : Nat.pow 2 63 = 9223372036854775808 := by rw [Nat.pow_eq]
  rw [Nat.pow_eq] at h
  unfold readCounter
  rw [toColumn_eq, hhalf]
  by_cases hn : n < 9223372036854775808
  · rw [if_pos hn, Int.bmod_eq_of_le (by omega) (by omega), Int.toNat_natCast]
  · rw [if_neg hn, Int.bmod_def]
    omega

/-- The row of a record is read as that record, but for what a row cannot hold. -/
theorem toJob_ofJob {job : Job} (h : job.Fits) : (Row.ofJob job).toJob = .ok job.readBack := by
  have hprogress : (min (max (job.progress : Int) 0) 100).toNat = min job.progress 100 := by omega
  have htime : (job.lastIndexed.map Time.seconds).bind timeOfColumn =
      job.lastIndexed.map fun time => ⟨time.seconds, 0⟩ := by
    cases hlast : job.lastIndexed with
    | none => rfl
    | some time => 
        have hrange : (⟨time.seconds, 0⟩ : Time).inRange = true := h.lastIndexed time hlast
        simp only [Option.map_some, Option.bind_some, timeOfColumn, hrange, if_true]
  simp only [Row.toJob, Row.ofJob, Status.ofName?_name, hprogress, htime,
    toNat_toColumn h.totalFiles, toNat_toColumn h.indexedFiles, readBack]

@[simp] theorem ofJob_fresh (key : Key) (url : String) (now : Int) :
    Row.ofJob (Job.fresh key url now) = Row.fresh key url .pending now := by
  simp only [Row.ofJob, Job.fresh, Row.fresh, toColumn_zero]
  rfl

@[simp] theorem ofJob_reset (job : Job) (status : Status) (url : String) (now : Int) :
    Row.ofJob (job.reset status url now) = (Row.ofJob job).reset url status now := by
  simp only [Row.ofJob, Job.reset, Row.reset, toColumn_zero]
  rfl

@[simp] theorem ofJob_apply (job : Job) (update : Update) (now : Int) :
    Row.ofJob (job.apply update now) = (Row.ofJob job).apply update now := by
  have hprogress : ((update.progress.getD job.progress : Nat) : Int) =
      (update.progress.map Int.ofNat).getD job.progress :=
    (Option.getD_map Int.ofNat job.progress update.progress).symm
  have hlast : (update.lastIndexed <|> job.lastIndexed).map Time.seconds =
      (update.lastIndexed.map Time.seconds <|> job.lastIndexed.map Time.seconds) := by
    cases update.lastIndexed <;> rfl
  simp only [Row.ofJob, Job.apply, Row.apply, Option.getD_map, hprogress, hlast]

/-! ### Lists of rows -/

section Lists

variable {α β : Type} {keyOf : α → Key} {keyOf' : β → Key} {f : α → β}
  (hkey : ∀ a, keyOf' (f a) = keyOf a)
include hkey

theorem putBy_map (item : α) (items : List α) :
    putBy keyOf' (f item) (items.map f) = (putBy keyOf item items).map f := by
  induction items with
  | nil => rfl
  | cons a rest ih =>
      rw [List.map_cons, putBy, putBy, hkey, hkey, ih]
      split_ifs <;> rfl

theorem findBy_map (key : Key) (items : List α) :
    findBy keyOf' key (items.map f) = (findBy keyOf key items).map f := by
  rw [findBy, findBy, List.find?_map]
  simp only [Function.comp_def, hkey]

theorem removeBy_map (key : Key) (items : List α) :
    removeBy keyOf' key (items.map f) = (removeBy keyOf key items).map f := by
  rw [removeBy, removeBy, List.filter_map]
  simp only [Function.comp_def, hkey]

end Lists

/-! ### The table of what is in memory -/

/-- The table with the rows of the records in memory. -/
def Table.ofMemory (memory : Memory) : Table := ⟨memory.jobs.map Row.ofJob, false⟩

namespace Table

theorem ofJob_key (job : Job) : (Row.ofJob job).key = job.key := rfl

theorem ofMemory_gone (memory : Memory) : (ofMemory memory).gone = false := rfl

theorem get?_ofMemory (memory : Memory) (key : Key) :
    (ofMemory memory).get? key = (memory.get? key).map Row.ofJob :=
  findBy_map ofJob_key key memory.jobs

theorem put_ofMemory (memory : Memory) (job : Job) :
    (ofMemory memory).put (Row.ofJob job) = ofMemory (memory.put job) := by
  rw [put, ofMemory, putBy_map ofJob_key]
  rfl

theorem found_ofMemory (memory : Memory) (key : Key) (url : String) (now : Int) :
    (ofMemory memory).found key url now = Row.ofJob (memory.found key url now) := by
  rw [found, Memory.found, get?_ofMemory, ← ofJob_fresh, Option.getD_map]

theorem isFree_ofJob (job : Job) (staleBefore : Int) :
    (Row.ofJob job).isFree staleBefore = !job.holdsKey staleBefore := by
  have hstatus : (Row.ofJob job).status = job.status.name := rfl
  have hupdated : (Row.ofJob job).updatedAt = job.updatedAt := rfl
  have hstale : decide (job.updatedAt < staleBefore) = !decide (staleBefore ≤ job.updatedAt) := by
    rw [← decide_not, decide_eq_decide, Int.not_le]
  rw [Row.isFree_of_status hstatus, hupdated, holdsKey, Status.isActive, hstale, Bool.not_and,
    Bool.not_not]

end Table

/-- Every record in memory fits into a row. -/
def Memory.Fits (memory : Memory) : Prop := ∀ job ∈ memory.jobs, job.Fits

/-- What is written to a record fits into a row. -/
def Request.Fits : Request → Prop
  | .update _ changes _ => changes.Fits
  | _ => True

/-- The reply with its records as they are read from rows. -/
def Reply.readBack : Reply → Reply
  | .claimed job => .claimed (job.map Job.readBack)
  | .started job => .started job.readBack
  | .updated => .updated
  | .found job => .found (job.map Job.readBack)
  | .listed jobs => .listed (jobs.map Job.readBack)
  | .deleted wasThere => .deleted wasThere

def Event.readBack (event : Event) : Event := ⟨event.request, event.result.map Reply.readBack⟩

theorem mem_putBy {α : Type} {keyOf : α → Key} {item a : α} {items : List α}
    (h : a ∈ putBy keyOf item items) : a = item ∨ a ∈ items := by
  induction items with
  | nil => exact Or.inl (List.mem_singleton.mp h)
  | cons b rest ih =>
      rw [putBy] at h
      split_ifs at h
      · exact List.mem_cons.mp h
      · rcases List.mem_cons.mp h with heq | hmem
        · exact Or.inl heq
        · exact Or.inr (List.mem_cons_of_mem b hmem)
      · rcases List.mem_cons.mp h with heq | hmem
        · exact Or.inr (heq ▸ List.mem_cons_self)
        · exact (ih hmem).imp_right (List.mem_cons_of_mem b)

namespace Memory

theorem fits_empty : empty.Fits := fun _ hjob => nomatch hjob

theorem Fits.put {memory : Memory} (h : memory.Fits) {job : Job} (hjob : job.Fits) :
    (memory.put job).Fits := by
  intro a ha
  rcases mem_putBy ha with rfl | hmem
  · exact hjob
  · exact h a hmem

theorem Fits.of_get? {memory : Memory} (h : memory.Fits) {key : Key} {job : Job}
    (hget : memory.get? key = some job) : job.Fits :=
  h job (List.mem_of_find?_eq_some hget)

theorem Fits.found {memory : Memory} (h : memory.Fits) (key : Key) (url : String) (now : Int) :
    (memory.found key url now).Fits := by
  rw [Memory.found]
  cases hget : memory.get? key with
  | none => exact fits_fresh key url now
  | some job => exact h.of_get? hget

/-- Every operation leaves records that fit. -/
theorem Fits.perform {memory : Memory} (h : memory.Fits) {request : Request} (hrequest : request.Fits) :
    (outcome (store.perform request) memory).2.Fits := by
  cases request with
  | claim key url staleBefore now =>
      change (outcome (Reply.claimed <$> claim key url staleBefore now) memory).2.Fits
      rw [outcome_map, outcome_claim]
      split
      · exact h
      · exact h.put ((h.found key url now).reset .pending url now)
  | startRun key url now =>
      change (outcome (Reply.started <$> startRun key url now) memory).2.Fits
      rw [outcome_map, outcome_startRun]
      exact h.put ((h.found key url now).reset .cloning url now)
  | update key update now =>
      change (outcome ((fun _ => Reply.updated) <$> Memory.update key update now) memory).2.Fits
      rw [outcome_map, outcome_update]
      cases hget : memory.get? key with
      | none => exact h
      | some job => exact h.put ((h.of_get? hget).apply hrequest now)
  | get key => exact h
  | list user => exact h
  | delete key =>
      change (outcome (Reply.deleted <$> delete key) memory).2.Fits
      rw [outcome_map, outcome_delete]
      exact fun job hjob => h job (List.mem_filter.mp hjob).1

end Memory

namespace Table

/-- An operation on the rows of what is in memory does what it does in memory. -/
theorem perform_ofMemory {memory : Memory} (h : memory.Fits) (request : Request) :
    outcome (store.perform request) (ofMemory memory) =
      ((outcome (Memory.store.perform request) memory).1.map Reply.readBack,
        ofMemory (outcome (Memory.store.perform request) memory).2) := by
  cases request with
  | claim key url staleBefore now =>
      change outcome (Reply.claimed <$> claim key url staleBefore now) (ofMemory memory) =
        ((outcome (Reply.claimed <$> Memory.claim key url staleBefore now) memory).1.map _,
          ofMemory (outcome (Reply.claimed <$> Memory.claim key url staleBefore now) memory).2)
      rw [outcome_map, outcome_map, outcome_claim (ofMemory_gone memory), Memory.outcome_claim,
        get?_ofMemory, found_ofMemory, ← ofJob_reset, put_ofMemory,
        toJob_ofJob ((h.found key url now).reset .pending url now), Option.any_map]
      simp only [isFree_ofJob, Bool.not_not]
      split <;> rfl
  | startRun key url now =>
      change outcome (Reply.started <$> startRun key url now) (ofMemory memory) =
        ((outcome (Reply.started <$> Memory.startRun key url now) memory).1.map _,
          ofMemory (outcome (Reply.started <$> Memory.startRun key url now) memory).2)
      rw [outcome_map, outcome_map, outcome_startRun (ofMemory_gone memory), Memory.outcome_startRun,
        found_ofMemory, ← ofJob_reset, put_ofMemory,
        toJob_ofJob ((h.found key url now).reset .cloning url now)]
      rfl
  | update key update now =>
      change outcome ((fun _ => Reply.updated) <$> Table.update key update now) (ofMemory memory) =
        ((outcome ((fun _ => Reply.updated) <$> Memory.update key update now) memory).1.map _,
          ofMemory (outcome ((fun _ => Reply.updated) <$> Memory.update key update now) memory).2)
      rw [outcome_map, outcome_map, outcome_update (ofMemory_gone memory), Memory.outcome_update,
        get?_ofMemory]
      cases memory.get? key with
      | none => rfl
      | some job =>
          simp only [Option.map_some, ← ofJob_apply, put_ofMemory]
          rfl
  | get key =>
      change outcome (Reply.found <$> fetch key) (ofMemory memory) =
        (.ok (.found ((memory.get? key).map readBack)), ofMemory memory)
      rw [outcome_map, outcome_fetch, ofMemory_gone, get?_ofMemory]
      cases hget : memory.get? key with
      | none => rfl
      | some job =>
          simp only [Option.map_some, toJob_ofJob (h.of_get? hget)]
          rfl
  | list user =>
      change outcome (Reply.listed <$> list user) (ofMemory memory) =
        (.ok (.listed ((memory.jobs.filter (·.key.user == user)).map readBack)), ofMemory memory)
      have hread : ∀ job ∈ memory.jobs.filter (·.key.user == user),
          (Row.toJob ∘ Row.ofJob) job = .ok job.readBack := fun job hjob =>
        toJob_ofJob (h job (List.mem_filter.mp hjob).1)
      have hrows : (ofMemory memory).rows.filter (·.key.user == user) =
          (memory.jobs.filter (·.key.user == user)).map Row.ofJob := List.filter_map
      rw [outcome_map, outcome_list (ofMemory_gone memory), hrows, List.mapM_map, mapM_ok hread]
      rfl
  | delete key =>
      change outcome (Reply.deleted <$> delete key) (ofMemory memory) =
        ((outcome (Reply.deleted <$> Memory.delete key) memory).1.map _,
          ofMemory (outcome (Reply.deleted <$> Memory.delete key) memory).2)
      rw [outcome_map, outcome_map, outcome_delete (ofMemory_gone memory), Memory.outcome_delete,
        get?_ofMemory, Option.isSome_map]
      have hrows : removeBy Row.key key (ofMemory memory).rows =
          (removeBy Job.key key memory.jobs).map Row.ofJob := removeBy_map ofJob_key key memory.jobs
      rw [hrows]
      rfl

end Table
end Job

namespace JobStore
open Job

/-- The histories of both stores from equal contents are equal but for what a row cannot hold. -/
theorem trace_ofMemory (requests : List Request) :
    ∀ {memory : Memory}, memory.Fits → (∀ request ∈ requests, request.Fits) →
      Table.store.trace requests (Table.ofMemory memory) =
        (Memory.store.trace requests memory).map Event.readBack := by
  induction requests with
  | nil => exact fun _ _ => rfl
  | cons request rest ih =>
      intro memory hmemory hrequests
      have hlater := ih (hmemory.perform (hrequests request List.mem_cons_self))
        fun request hrequest => hrequests request (List.mem_cons_of_mem _ hrequest)
      rw [trace, trace, Table.perform_ofMemory hmemory, List.map_cons, hlater]
      rfl

/-- Started empty, the store in a table answers every sequence of operations as the store in memory does,
with the records of the answers read back from their rows. -/
theorem trace_table {requests : List Request} (hrequests : ∀ request ∈ requests, request.Fits) :
    Table.store.trace requests Table.empty =
      (Memory.store.trace requests Memory.empty).map Event.readBack :=
  trace_ofMemory requests Memory.fits_empty hrequests

/-- A counter that a row loses, a progress that it caps and a time that it cuts. -/
def largeUpdate : Update :=
  { Update.none with
    progress := some 200
    totalFiles := some 9223372036854775808
    indexedFiles := some 9223372036854775807
    lastIndexed := some ⟨1700000000, 500000000⟩ }

theorem fits_largeUpdate : largeUpdate.Fits := by
  refine ⟨fun n hn => ?_, fun n hn => ?_, fun time htime => ?_⟩
  · cases hn
    decide +kernel
  · cases hn
    decide +kernel
  · cases htime
    decide +kernel

theorem trace_table_large :
    let key : Key := ⟨"u1", "acme/app"⟩
    let requests : List Request :=
      [.update key largeUpdate 1, .claim key "url" 0 2, .update key largeUpdate 3,
        .claim key "url" 3 4, .claim key "url" 4 5, .startRun key "url" 6, .update key largeUpdate 7,
        .get key, .list "u1", .delete key, .delete key]
    (∀ request ∈ requests, request.Fits) ∧
      Table.store.trace requests Table.empty =
        (Memory.store.trace requests Memory.empty).map Event.readBack := by
  intro key requests
  have hfits : ∀ request ∈ requests, request.Fits := by
    simp [requests, Request.Fits, fits_largeUpdate]
  exact ⟨hfits, trace_table hfits⟩

end JobStore
end SourceIndex
