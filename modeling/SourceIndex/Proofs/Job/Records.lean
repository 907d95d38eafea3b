import Mathlib.Tactic.SplitIfs
import SourceIndex.Job.Memory
import SourceIndex.Job.Table
import SourceIndex.Proofs.Step

/-! What the job stores keep. Records that are put into a list, looked up and removed follow the laws of
a map from keys; from these come the outcomes of the operations of both stores. Two laws of
stores are stated for any store: an operation on one key leaves what is read under the others, and the
record of a key is exactly what its updates make of it. -/

namespace SourceIndex
open Step

namespace Job

/-! ### Lists of items by key -/

section Lists

variable {α : Type} (keyOf : α → Key)

theorem findBy_putBy_self (item : α) (items : List α) :
    findBy keyOf (keyOf item) (putBy keyOf item items) = some item := by
  induction items with
  | nil => simp [putBy, findBy]
  | cons a rest ih =>
      rw [putBy]
      split_ifs with hlt heq
      · simp [findBy]
      · simp [findBy]
      · have hne : (keyOf a == keyOf item) = false := by simpa using Ne.symm heq
        rw [findBy, List.find?_cons, hne]
        exact ih

theorem findBy_putBy_of_ne {key : Key} {item : α} (hne : key ≠ keyOf item) (items : List α) :
    findBy keyOf key (putBy keyOf item items) = findBy keyOf key items := by
  have hitem : (keyOf item == key) = false := by simpa using Ne.symm hne
  induction items with
  | nil => simp [putBy, findBy, hitem]
  | cons a rest ih =>
      rw [putBy]
      split_ifs with hlt heq
      · rw [findBy, List.find?_cons, hitem, findBy]
      · have ha : (keyOf a == key) = false := by rwa [heq] at hitem
        rw [findBy, findBy, List.find?_cons, List.find?_cons, hitem, ha]
      · rw [findBy, findBy, List.find?_cons, List.find?_cons]
        split
        · rfl
        · exact ih

theorem findBy_removeBy_self (key : Key) (items : List α) :
    findBy keyOf key (removeBy keyOf key items) = none := by
  rw [findBy, removeBy, List.find?_eq_none]
  intro a ha
  have := (List.mem_filter.mp ha).2
  simpa using this

theorem findBy_removeBy_of_ne {key other : Key} (hne : key ≠ other) (items : List α) :
    findBy keyOf key (removeBy keyOf other items) = findBy keyOf key items := by
  rw [findBy, removeBy, List.find?_filter, findBy]
  congr 1
  funext a
  by_cases ha : keyOf a = key
  · simp [ha, hne]
  · simp [ha]

end Lists

@[simp] theorem reset_key (job : Job) (status : Status) (url : String) (now : Int) :
    (job.reset status url now).key = job.key := rfl

@[simp] theorem apply_key (job : Job) (update : Update) (now : Int) :
    (job.apply update now).key = job.key := rfl

@[simp] theorem Row.reset_key (row : Row) (url : String) (status : Status) (now : Int) :
    (row.reset url status now).key = row.key := rfl

@[simp] theorem Row.apply_key (row : Row) (update : Update) (now : Int) :
    (row.apply update now).key = row.key := rfl

@[simp] theorem Row.status_reset (row : Row) (url : String) (status : Status) (now : Int) :
    (row.reset url status now).status = status.name := rfl

@[simp] theorem fresh_key (key : Key) (url : String) (now : Int) : (fresh key url now).key = key := rfl

/-! ### The store in memory -/

namespace Memory

theorem key_of_get? {memory : Memory} {key : Key} {job : Job} (h : memory.get? key = some job) :
    job.key = key := by
  simpa using List.find?_some h

@[simp] theorem get?_put_self (memory : Memory) (job : Job) :
    (memory.put job).get? job.key = some job := findBy_putBy_self Job.key job memory.jobs

theorem get?_put (memory : Memory) {job : Job} {key : Key} (h : job.key = key) :
    (memory.put job).get? key = some job := by
  subst h
  exact get?_put_self memory job

theorem get?_put_of_ne (memory : Memory) {job : Job} {key : Key} (h : key ≠ job.key) :
    (memory.put job).get? key = memory.get? key := findBy_putBy_of_ne Job.key h memory.jobs

@[simp] theorem get?_record (memory : Memory) (update : Update) (key : Key) :
    (memory.record update).get? key = memory.get? key := rfl

@[simp] theorem history_put (memory : Memory) (job : Job) :
    (memory.put job).history = memory.history := rfl

@[simp] theorem history_record (memory : Memory) (update : Update) :
    (memory.record update).history = memory.history ++ [update] := rfl

/-- The record that a claim or the start of a run resets: the one that is there, or a new one. -/
def found (memory : Memory) (key : Key) (url : String) (now : Int) : Job :=
  (memory.get? key).getD (Job.fresh key url now)

theorem found_key (memory : Memory) (key : Key) (url : String) (now : Int) :
    (memory.found key url now).key = key := by
  rw [found]
  cases h : memory.get? key with
  | none => rfl
  | some job => exact key_of_get? h

/-- Resetting a new record to wait changes nothing. -/
theorem reset_fresh (key : Key) (url : String) (now : Int) :
    (Job.fresh key url now).reset .pending url now = Job.fresh key url now := rfl

theorem outcome_claim (key : Key) (url : String) (staleBefore now : Int) (memory : Memory) :
    outcome (claim key url staleBefore now) memory =
      if (memory.get? key).any (·.holdsKey staleBefore) then (.ok none, memory)
      else
        (.ok (some ((memory.found key url now).reset .pending url now)),
          memory.put ((memory.found key url now).reset .pending url now)) := by
  rw [claim, outcome_bind, outcome_get]
  dsimp only
  rw [found]
  cases h : memory.get? key with
  | none => simp [reset_fresh]
  | some job =>
      by_cases hholds : job.holdsKey staleBefore = true
      · simp [hholds]
      · simp [hholds]

theorem outcome_startRun (key : Key) (url : String) (now : Int) (memory : Memory) :
    outcome (startRun key url now) memory =
      (.ok ((memory.found key url now).reset .cloning url now),
        (memory.put ((memory.found key url now).reset .cloning url now)).record (startUpdate url)) := by
  simp [startRun, outcome_bind, found]

theorem outcome_update (key : Key) (update : Update) (now : Int) (memory : Memory) :
    outcome (Memory.update key update now) memory =
      match memory.get? key with
      | none => (.error (JobStore.missing key), memory)
      | some job => (.ok (), (memory.put (job.apply update now)).record update) := by
  rw [Memory.update, outcome_bind, outcome_get]
  dsimp only
  cases memory.get? key with
  | none => rfl
  | some job => simp [outcome_bind]

theorem outcome_delete (key : Key) (memory : Memory) :
    outcome (delete key) memory =
      (.ok (memory.get? key).isSome, { memory with jobs := removeBy Job.key key memory.jobs }) := by
  simp [delete, outcome_bind]

/-! An operation on one key leaves the record of every other key. -/

section Others

variable (memory : Memory) {key other : Key} (hne : other ≠ key)
include hne

theorem claim_other (url : String) (staleBefore now : Int) :
    (outcome (claim key url staleBefore now) memory).2.get? other = memory.get? other := by
  rw [outcome_claim]
  split
  · rfl
  · rw [get?_put_of_ne]
    rwa [reset_key, found_key]

theorem startRun_other (url : String) (now : Int) :
    (outcome (startRun key url now) memory).2.get? other = memory.get? other := by
  rw [outcome_startRun, get?_record, get?_put_of_ne]
  rwa [reset_key, found_key]

theorem update_other (update : Update) (now : Int) :
    (outcome (Memory.update key update now) memory).2.get? other = memory.get? other := by
  rw [outcome_update]
  cases h : memory.get? key with
  | none => rfl
  | some job =>
      rw [get?_record, get?_put_of_ne]
      rwa [apply_key, key_of_get? h]

theorem delete_other : (outcome (delete key) memory).2.get? other = memory.get? other := by
  rw [outcome_delete]
  exact findBy_removeBy_of_ne Job.key hne memory.jobs

end Others

end Memory

/-! ### The store in a table -/

namespace Status

theorem ofName?_name (status : Status) : ofName? status.name = some status := by
  cases status <;> rfl

theorem name_eq_iff {status status' : Status} : status.name = status'.name ↔ status = status' := by
  constructor
  · intro h
    have hname := ofName?_name status
    rw [h, ofName?_name, Option.some.injEq] at hname
    exact hname.symm
  · rintro rfl
    rfl

end Status

namespace Row

/-- A row whose status is that of a record is free for a claim exactly if the record does not hold its
key. -/
theorem isFree_of_status {row : Row} {status : Status} (h : row.status = status.name)
    (staleBefore : Int) :
    row.isFree staleBefore = (status.isTerminal || decide (row.updatedAt < staleBefore)) := by
  have hname : ∀ other : Status, (row.status == other.name) = decide (status = other) := by
    intro other
    rw [h, Bool.eq_iff_iff, beq_iff_eq, decide_eq_true_iff, Status.name_eq_iff]
  rw [isFree, hname, hname]
  cases status <;> rfl

/-- A row whose status is that of a record can be read. -/
theorem toJob_of_status {row : Row} {status : Status} (h : row.status = status.name) :
    ∃ job, row.toJob = .ok job := by
  rw [toJob, h, Status.ofName?_name]
  exact ⟨_, rfl⟩

end Row

namespace Table

theorem get?_put_of_ne (table : Table) {row : Row} {key : Key} (h : key ≠ row.key) :
    (table.put row).get? key = table.get? key := findBy_putBy_of_ne Row.key h table.rows

theorem outcome_openTable (table : Table) :
    outcome openTable table =
      if table.gone then (.error (.missingTable "indexed_repositories"), table)
      else (.ok table, table) := by
  rw [openTable, outcome_bind, outcome_get]
  dsimp only
  split <;> rfl

/-- Reading a record leaves the table. -/
theorem outcome_fetch (key : Key) (table : Table) :
    outcome (fetch key) table =
      (if table.gone then .error (.missingTable "indexed_repositories")
        else match table.get? key with
          | none => .ok none
          | some row => row.toJob.map some, table) := by
  rw [fetch, outcome_bind, outcome_openTable]
  by_cases hgone : table.gone = true
  · simp [hgone]
  · simp only [hgone, Bool.false_eq_true, if_false]
    cases table.get? key with
    | none => rfl
    | some row => simp

theorem outcome_fetchWritten (key : Key) (table : Table) :
    (outcome (fetchWritten key) table).2 = table := by
  rw [fetchWritten, outcome_bind, outcome_fetch]
  split
  · next h =>
      rw [Prod.mk.injEq] at h
      split <;> simp [h.2]
  · next h =>
      rw [Prod.mk.injEq] at h
      exact h.2.symm

/-- What is read under a key hangs only on the row of that key and on whether the table is there. -/
theorem fetch_congr {key : Key} {table table' : Table} (hgone : table'.gone = table.gone)
    (hrow : table'.get? key = table.get? key) :
    (outcome (fetch key) table').1 = (outcome (fetch key) table).1 := by
  rw [outcome_fetch, outcome_fetch, hgone, hrow]

/-- A table after a write under one key: it is as before, or has another row of that key. -/
inductive Rewritten (key : Key) (table : Table) : Table → Prop where
  | same : Rewritten key table table
  | put {row : Row} (h : row.key = key) : Rewritten key table (table.put row)
  | removed : Rewritten key table { table with rows := removeBy Row.key key table.rows }

theorem Rewritten.gone_eq {key : Key} {table table' : Table} (h : Rewritten key table table') :
    table'.gone = table.gone := by
  cases h <;> rfl

theorem Rewritten.get?_eq {key other : Key} {table table' : Table} (h : Rewritten key table table')
    (hne : other ≠ key) : table'.get? other = table.get? other := by
  cases h with
  | same => rfl
  | put hrow => exact get?_put_of_ne table (hrow ▸ hne)
  | removed => exact findBy_removeBy_of_ne Row.key hne table.rows

theorem Rewritten.fetch_eq {key other : Key} {table table' : Table} (h : Rewritten key table table')
    (hne : other ≠ key) : (outcome (fetch other) table').1 = (outcome (fetch other) table).1 :=
  fetch_congr h.gone_eq (h.get?_eq hne)

theorem rewritten_bind {β : Type} {key : Key} {next : Table → Action Table β}
    (hnext : ∀ table, Rewritten key table (outcome (next table) table).2) (table : Table) :
    Rewritten key table (outcome (openTable >>= next) table).2 := by
  rw [outcome_bind, outcome_openTable]
  by_cases hgone : table.gone = true
  · simp only [hgone, if_true]
    exact .same
  · simp only [hgone, Bool.false_eq_true, if_false]
    exact hnext table

theorem key_of_get? {table : Table} {key : Key} {row : Row} (h : table.get? key = some row) :
    row.key = key := by
  simpa using List.find?_some h

theorem claim_rewritten (key : Key) (url : String) (staleBefore now : Int) (table : Table) :
    Rewritten key table (outcome (claim key url staleBefore now) table).2 := by
  refine rewritten_bind (fun table => ?_) table
  cases h : table.get? key with
  | none =>
      simp only [outcome_bind, outcome_modify, outcome_map, outcome_fetchWritten]
      exact .put rfl
  | some row =>
      by_cases hfree : row.isFree staleBefore = true
      · simp only [hfree, if_true, outcome_bind, outcome_modify, outcome_map, outcome_fetchWritten]
        exact .put ((row.reset_key url .pending now).trans (key_of_get? h))
      · simp only [hfree]
        exact .same

theorem startRun_rewritten (key : Key) (url : String) (now : Int) (table : Table) :
    Rewritten key table (outcome (startRun key url now) table).2 := by
  refine rewritten_bind (fun table => ?_) table
  cases h : table.get? key with
  | none =>
      simp only [outcome_bind, outcome_modify, outcome_fetchWritten]
      exact .put rfl
  | some row =>
      simp only [outcome_bind, outcome_modify, outcome_fetchWritten]
      exact .put ((row.reset_key url .cloning now).trans (key_of_get? h))

theorem update_rewritten (key : Key) (update : Update) (now : Int) (table : Table) :
    Rewritten key table (outcome (Table.update key update now) table).2 := by
  refine rewritten_bind (fun table => ?_) table
  cases h : table.get? key with
  | none => exact .same
  | some row => exact .put ((row.apply_key update now).trans (key_of_get? h))

theorem delete_rewritten (key : Key) (table : Table) :
    Rewritten key table (outcome (delete key) table).2 :=
  rewritten_bind (fun _ => .removed) table

/-! What the operations do to a table that is there. -/

/-- The row that a claim or the start of a run resets: the one that is there, or a new one. -/
def found (table : Table) (key : Key) (url : String) (now : Int) : Row :=
  (table.get? key).getD (Row.fresh key url .pending now)

theorem found_key (table : Table) (key : Key) (url : String) (now : Int) :
    (table.found key url now).key = key := by
  rw [found]
  cases h : table.get? key with
  | none => rfl
  | some row => exact key_of_get? h

/-- A new row may be written at once as it is after its reset. -/
theorem reset_fresh (key : Key) (url : String) (status : Status) (now : Int) :
    (Row.fresh key url .pending now).reset url status now = Row.fresh key url status now := rfl

theorem get?_put (table : Table) {row : Row} {key : Key} (h : row.key = key) :
    (table.put row).get? key = some row := by
  subst h
  exact findBy_putBy_self Row.key row table.rows

theorem list_state (user : String) (table : Table) : (outcome (list user) table).2 = table := by
  rw [list, outcome_bind, outcome_openTable]
  by_cases hgone : table.gone = true
  · simp only [hgone, if_true]
  · simp only [hgone, Bool.false_eq_true, if_false, outcome_liftExcept]

/-- A step that opens the table and gives a value found it there. -/
theorem open_of_ok {α : Type} {next : Table → Action Table α} {table table' : Table} {a : α}
    (h : outcome (openTable >>= next) table = (.ok a, table')) : table.gone = false := by
  obtain ⟨opened, between, hopen, -⟩ := outcome_bind_ok h
  rw [outcome_openTable] at hopen
  split at hopen
  · cases hopen
  · next hgone => simpa using hgone

section Open

variable {table : Table} (hopen : table.gone = false)
include hopen

theorem outcome_openTable_of_open : outcome openTable table = (.ok table, table) := by
  rw [outcome_openTable, hopen]
  rfl

/-- What is read under a key after a row of it was written is the record of that row. -/
theorem outcome_fetchWritten_put {row : Row} {key : Key} (h : row.key = key) :
    outcome (fetchWritten key) (table.put row) = (row.toJob, table.put row) := by
  have hgone : (table.put row).gone = false := hopen
  have hfetch : outcome (fetch key) (table.put row) = (row.toJob.map some, table.put row) := by
    rw [outcome_fetch, hgone, get?_put table h]
    rfl
  cases hread : row.toJob with
  | error failure =>
      rw [hread] at hfetch
      exact outcome_bind_of_error hfetch
  | ok job =>
      rw [hread] at hfetch
      rw [fetchWritten, outcome_bind_of_ok hfetch]
      rfl

theorem outcome_claim (key : Key) (url : String) (staleBefore now : Int) :
    outcome (claim key url staleBefore now) table =
      if (table.get? key).any (!·.isFree staleBefore) then (.ok none, table)
      else
        (((table.found key url now).reset url .pending now).toJob.map some,
          table.put ((table.found key url now).reset url .pending now)) := by
  have hkey := table.found_key key url now
  rw [claim, outcome_bind_of_ok (outcome_openTable_of_open hopen)]
  rw [found] at hkey ⊢
  cases h : table.get? key with
  | none =>
      rw [h, Option.getD_none] at hkey
      simp only [Option.any_none, Bool.false_eq_true, if_false, Option.getD_none, reset_fresh,
        outcome_bind, outcome_modify, outcome_map, outcome_fetchWritten_put hopen hkey]
  | some row =>
      rw [h, Option.getD_some] at hkey
      by_cases hfree : row.isFree staleBefore = true
      · simp only [Option.any_some, hfree, Bool.not_true, Bool.false_eq_true, if_false, if_true,
          Option.getD_some, outcome_bind, outcome_modify, outcome_map,
          outcome_fetchWritten_put hopen ((row.reset_key url .pending now).trans hkey)]
      · simp [hfree]

theorem outcome_startRun (key : Key) (url : String) (now : Int) :
    outcome (startRun key url now) table =
      (((table.found key url now).reset url .cloning now).toJob,
        table.put ((table.found key url now).reset url .cloning now)) := by
  have hkey := table.found_key key url now
  rw [startRun, outcome_bind_of_ok (outcome_openTable_of_open hopen)]
  rw [found] at hkey ⊢
  cases h : table.get? key with
  | none =>
      have hfresh : (Row.fresh key url .cloning now).key = key := rfl
      simp only [Option.getD_none, reset_fresh, outcome_bind, outcome_modify,
        outcome_fetchWritten_put hopen hfresh]
  | some row =>
      rw [h, Option.getD_some] at hkey
      simp only [Option.getD_some, outcome_bind, outcome_modify,
        outcome_fetchWritten_put hopen ((row.reset_key url .cloning now).trans hkey)]

theorem outcome_update (key : Key) (update : Update) (now : Int) :
    outcome (Table.update key update now) table =
      match table.get? key with
      | none => (.error (JobStore.missing key), table)
      | some row => (.ok (), table.put (row.apply update now)) := by
  rw [Table.update, outcome_bind_of_ok (outcome_openTable_of_open hopen)]
  cases table.get? key with
  | none => rfl
  | some row => rfl

theorem outcome_delete (key : Key) :
    outcome (delete key) table =
      (.ok (table.get? key).isSome, { table with rows := removeBy Row.key key table.rows }) := by
  rw [delete, outcome_bind_of_ok (outcome_openTable_of_open hopen)]
  rfl

theorem outcome_list (user : String) :
    outcome (list user) table = ((table.rows.filter (·.key.user == user)).mapM Row.toJob, table) := by
  rw [list, outcome_bind_of_ok (outcome_openTable_of_open hopen), outcome_liftExcept]

end Open

end Table
end Job

namespace JobStore
open Job

variable {σ : Type}

/-- What is read under a key. -/
def read (store : JobStore σ) (key : Key) (s : σ) : Except Failure (Option Job) :=
  (outcome (store.get key) s).1

/-- An operation on one key leaves what is read under every other key. -/
structure Separate (store : JobStore σ) : Prop where
  claim : ∀ {key other : Key} (url : String) (staleBefore now : Int) (s : σ), other ≠ key →
    store.read other (outcome (store.claim key url staleBefore now) s).2 = store.read other s
  startRun : ∀ {key other : Key} (url : String) (now : Int) (s : σ), other ≠ key →
    store.read other (outcome (store.startRun key url now) s).2 = store.read other s
  update : ∀ {key other : Key} (update : Update) (now : Int) (s : σ), other ≠ key →
    store.read other (outcome (store.update key update now) s).2 = store.read other s
  delete : ∀ {key other : Key} (s : σ), other ≠ key →
    store.read other (outcome (store.delete key) s).2 = store.read other s

theorem memory_separate : Memory.store.Separate where
  claim url staleBefore now memory hne :=
    congrArg Except.ok (Memory.claim_other memory hne url staleBefore now)
  startRun url now memory hne := congrArg Except.ok (Memory.startRun_other memory hne url now)
  update update now memory hne := congrArg Except.ok (Memory.update_other memory hne update now)
  delete memory hne := congrArg Except.ok (Memory.delete_other memory hne)

theorem table_separate : Table.store.Separate where
  claim url staleBefore now table hne := (Table.claim_rewritten _ url staleBefore now table).fetch_eq hne
  startRun url now table hne := (Table.startRun_rewritten _ url now table).fetch_eq hne
  update update now table hne := (Table.update_rewritten _ update now table).fetch_eq hne
  delete table hne := (Table.delete_rewritten _ table).fetch_eq hne

/-- The record of a key is what its updates make of it: the start of a run resets it, an update of a
record that is there succeeds and is applied, and both are added to what was written. -/
structure Records (store : JobStore σ) (key : Key) (stored : σ → Option Job)
    (written : σ → List Update) : Prop where
  startRun : ∀ url now s, ∃ (earlier : Job) (s' : σ),
    outcome (store.startRun key url now) s = (.ok (earlier.reset .cloning url now), s') ∧
    stored s' = some (earlier.reset .cloning url now) ∧
    written s' = written s ++ [Memory.startUpdate url]
  update : ∀ {job} update now s, stored s = some job →
    ∃ s', outcome (store.update key update now) s = (.ok (), s') ∧
      stored s' = some (job.apply update now) ∧ written s' = written s ++ [update]

theorem memory_records (key : Key) :
    Memory.store.Records key (·.get? key) Memory.history where
  startRun url now memory := by
    refine ⟨_, _, Memory.outcome_startRun key url now memory, ?_, by simp⟩
    rw [Memory.get?_record, Memory.get?_put]
    exact Memory.found_key memory key url now
  update update now memory hjob := by
    refine ⟨_, (Memory.outcome_update key update now memory).trans (by rw [hjob]), ?_, by simp⟩
    rw [Memory.get?_record, Memory.get?_put]
    rw [apply_key, Memory.key_of_get? hjob]

end JobStore
end SourceIndex
