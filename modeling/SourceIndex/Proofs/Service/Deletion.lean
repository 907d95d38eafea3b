import SourceIndex.Proofs.Job.Claims
import SourceIndex.Proofs.Service.Stages
import SourceIndex.Proofs.VectorIndex.Deletion
import SourceIndex.Service.Lifecycle

/-! The deletion of a repository is whole or can be made again. It looks at the record first and removes it last,
so that whatever goes wrong with the chunks in between, after however many of them are gone, the record still
says that there is something to delete. -/

namespace SourceIndex

/-- A key that is not held stays so while nothing is written. -/
theorem Job.holdsKey_of_le {job : Job} {earlier later : Int} (hle : earlier ≤ later)
    (h : job.holdsKey earlier = false) : job.holdsKey later = false := by
  simp only [holdsKey, Bool.and_eq_false_iff, decide_eq_false_iff_not] at h ⊢
  exact h.imp id fun hstale hlater => hstale (Int.le_trans hle hlater)

namespace JobStore
open Job Step

/-- A record that can be read can be removed; then there is none under its key. -/
def Removes {J : Type} (store : JobStore J) : Prop :=
  ∀ {key job s}, store.read key s = .ok (some job) →
    ∃ found s', outcome (store.delete key) s = (.ok found, s') ∧ store.read key s' = .ok none

theorem memory_removes : Memory.store.Removes := by
  intro key job memory _
  refine ⟨_, _, Memory.outcome_delete key memory, ?_⟩
  exact congrArg Except.ok (findBy_removeBy_self Job.key key memory.jobs)

theorem table_removes : Table.store.Removes := by
  intro key job table h
  have hfetch : outcome (Table.fetch key) table = (.ok (some job), table) :=
    Prod.ext h (Table.readsKeep.get key table)
  have hopen : table.gone = false := Table.open_of_ok hfetch
  refine ⟨_, _, Table.outcome_delete hopen key, ?_⟩
  have hgone : Table.get? { table with rows := removeBy Row.key key table.rows } key = none :=
    findBy_removeBy_self Row.key key table.rows
  change (outcome (Table.fetch key) _).1 = .ok none
  rw [Table.outcome_fetch, hgone, hopen]
  rfl

end JobStore

namespace Service
open Step VectorIndex

variable {J R V : Type}

/-! ### How a deletion ends -/

/-- All that a deletion can come to: its answer, and the world that it leaves. -/
inductive DeletionEnds (service : Service J R V) (key : Job.Key) (w : World J R V) :
    Except Failure Deletion → World J R V → Prop
  | unread {failure : Failure} (hread : service.jobs.read key w.jobs = .error failure) :
      DeletionEnds service key w (.error failure) w
  | notFound (hread : service.jobs.read key w.jobs = .ok none) :
      DeletionEnds service key w (.ok .notFound) w
  | active {job : Job} (hread : service.jobs.read key w.jobs = .ok (some job))
      (hholds : job.holdsKey (service.oldest w.readings) = true) :
      DeletionEnds service key w (.ok .active) { w with readings := w.readings + 1 }
  /-- The chunks could not be deleted, or not all of them. -/
  | chunksLeft {job : Job} {failure : Failure} {index : V}
      (hread : service.jobs.read key w.jobs = .ok (some job))
      (hfree : job.holdsKey (service.oldest w.readings) = false)
      (hchunks : outcome (deleteChunks service.index service.pageLimit key.repo key.user) w.index =
        (.error failure, index)) :
      DeletionEnds service key w (.error failure) { w with index, readings := w.readings + 1 }
  /-- The chunks are gone, but the record could not be removed. -/
  | recordLeft {job : Job} {count : Nat} {index : V} {failure : Failure} {jobs : J}
      (hread : service.jobs.read key w.jobs = .ok (some job))
      (hchunks : outcome (deleteChunks service.index service.pageLimit key.repo key.user) w.index =
        (.ok count, index))
      (hrecord : outcome (service.jobs.delete key) w.jobs = (.error failure, jobs)) :
      DeletionEnds service key w (.error failure) { w with jobs, index, readings := w.readings + 1 }
  | deleted {job : Job} {count : Nat} {index : V} {found : Bool} {jobs : J}
      (hread : service.jobs.read key w.jobs = .ok (some job))
      (hchunks : outcome (deleteChunks service.index service.pageLimit key.repo key.user) w.index =
        (.ok count, index))
      (hrecord : outcome (service.jobs.delete key) w.jobs = (.ok found, jobs)) :
      DeletionEnds service key w (.ok (.deleted count)) { w with jobs, index, readings := w.readings + 1 }

section Ends

variable {service : Service J R V} (hjobs : service.jobs.ReadsKeep) {key : Job.Key} {w : World J R V}
include hjobs

theorem outcome_getJob (key : Job.Key) (w : World J R V) :
    outcome (World.onJobs (service.jobs.get key)) w = (service.jobs.read key w.jobs, w) := by
  rw [World.onJobs, outcome_within, hjobs.get]
  rfl

/-- Where no run holds the key of a record, the chunks are deleted and then the record is removed. -/
theorem outcome_delete_of_free {job : Job} (hread : service.jobs.read key w.jobs = .ok (some job))
    (hfree : job.holdsKey (service.oldest w.readings) = false) :
    outcome (service.delete key) w =
      outcome (World.onIndex (deleteChunks service.index service.pageLimit key.repo key.user) >>= fun count =>
          World.onJobs (service.jobs.delete key) >>= fun _ => pure (.deleted count))
        { w with readings := w.readings + 1 } := by
  have hget := outcome_getJob hjobs key w
  rw [hread] at hget
  rw [delete, outcome_bind_of_ok hget]
  dsimp only
  rw [outcome_bind_of_ok (outcome_staleBefore w), hfree]
  rfl

theorem outcome_delete_of_deleted {job : Job} {count : Nat} {index : V} {found : Bool} {jobs : J}
    (hread : service.jobs.read key w.jobs = .ok (some job))
    (hfree : job.holdsKey (service.oldest w.readings) = false)
    (hchunks : outcome (deleteChunks service.index service.pageLimit key.repo key.user) w.index =
      (.ok count, index))
    (hrecord : outcome (service.jobs.delete key) w.jobs = (.ok found, jobs)) :
    outcome (service.delete key) w =
      (.ok (.deleted count), { w with jobs, index, readings := w.readings + 1 }) := by
  rw [outcome_delete_of_free hjobs hread hfree]
  simp only [outcome_bind, World.onIndex, World.onJobs, outcome_within, hchunks, hrecord, outcome_pure]

theorem delete_ends (key : Job.Key) (w : World J R V) :
    DeletionEnds service key w (outcome (service.delete key) w).1 (outcome (service.delete key) w).2 := by
  have hget := outcome_getJob hjobs key w
  rcases hread : service.jobs.read key w.jobs with failure | _ | job
  · rw [hread] at hget
    rw [delete, outcome_bind_of_error hget]
    exact .unread hread
  · rw [hread] at hget
    rw [delete, outcome_bind_of_ok hget]
    exact .notFound hread
  · cases hholds : job.holdsKey (service.oldest w.readings) with
    | true =>
        rw [hread] at hget
        rw [delete, outcome_bind_of_ok hget]
        dsimp only
        rw [outcome_bind_of_ok (outcome_staleBefore w), hholds]
        exact .active hread hholds
    | false =>
        rcases hchunks : outcome (deleteChunks service.index service.pageLimit key.repo key.user) w.index with
          ⟨failure | count, index⟩
        · rw [outcome_delete_of_free hjobs hread hholds]
          simp only [outcome_bind, World.onIndex, outcome_within, hchunks]
          exact .chunksLeft hread hholds hchunks
        · rcases hrecord : outcome (service.jobs.delete key) w.jobs with ⟨failure | found, jobs⟩
          · rw [outcome_delete_of_free hjobs hread hholds]
            simp only [outcome_bind, World.onIndex, World.onJobs, outcome_within, hchunks, hrecord]
            exact .recordLeft hread hchunks hrecord
          · rw [outcome_delete_of_deleted hjobs hread hholds hchunks hrecord]
            exact .deleted hread hchunks hrecord

end Ends

/-! ### Whole deletions -/

/-- The service on the index within the process, following at most so many pages. -/
def onLocal (service : Service J R V) (pageLimit : Nat) : Service J R Local :=
  { service with index := Local.index, pageLimit }

/-- With these job records the repository can be deleted by any call that the clock does not place earlier, on an
index within the process for which no failure waits; the call removes the records of the namespace and no other. -/
def CanDelete (service : Service J R V) (key : Job.Key) (readings : Nat) (jobs : J) : Prop :=
  ∀ {w : World J R Local}, w.jobs = jobs →
    (service.clock readings).seconds ≤ (service.clock w.readings).seconds →
    Local.Sorted w.index.records → w.index.Quiet →
    (w.index.records.filter (Local.startsWith (Chunk.idStart key.user key.repo))).length ≤ Text.maxWord64 →
    ∃ limit, ∀ pageLimit, limit ≤ pageLimit → ∃ w',
      outcome ((service.onLocal pageLimit).delete key) w =
        (.ok (.deleted
          (w.index.records.filter (Local.startsWith (Chunk.idStart key.user key.repo))).length), w') ∧
      w'.index.records =
        w.index.records.filter fun r => !Local.startsWith (Chunk.idStart key.user key.repo) r

/-- A deletion removes the chunks of a repository and its record, or it keeps all records. -/
structure DeletesWhole (service : Service J R V) (key : Job.Key) (w : World J R V) : Prop where
  /-- Without a record, or while a run holds the key, nothing is touched. -/
  refused {answer : Deletion} {w' : World J R V} (h : outcome (service.delete key) w = (.ok answer, w'))
    (hkept : ∀ count, answer ≠ .deleted count) :
    w'.jobs = w.jobs ∧ w'.index = w.index ∧
      (answer = .notFound ∧ service.jobs.read key w.jobs = .ok none ∨
        answer = .active ∧ ∃ job, service.jobs.read key w.jobs = .ok (some job) ∧
          job.holdsKey (service.oldest w.readings) = true)
  /-- A failure is that of reading the record, before anything was done, or that of deleting the chunks, and then
  the deletion can be made again. -/
  failed {failure : Failure} {w' : World J R V} (h : outcome (service.delete key) w = (.error failure, w')) :
    w'.jobs = w.jobs ∧
      (service.jobs.read key w.jobs = .error failure ∧ w'.index = w.index ∨
        outcome (deleteChunks service.index service.pageLimit key.repo key.user) w.index =
            (.error failure, w'.index) ∧
          service.CanDelete key w.readings w'.jobs)
  deleted {count : Nat} {w' : World J R V} (h : outcome (service.delete key) w = (.ok (.deleted count), w')) :
    outcome (deleteChunks service.index service.pageLimit key.repo key.user) w.index = (.ok count, w'.index) ∧
      service.jobs.read key w'.jobs = .ok none ∧ service.OthersKept key w w'

section Whole

variable {service : Service J R V} (hreads : service.jobs.ReadsKeep) (hremoves : service.jobs.Removes)
  {key : Job.Key}
include hreads hremoves

theorem canDelete_of_free {job : Job} {readings : Nat} {jobs : J}
    (hread : service.jobs.read key jobs = .ok (some job))
    (hfree : job.holdsKey (service.oldest readings) = false) : service.CanDelete key readings jobs := by
  rintro w rfl hclock hsorted hquiet hsize
  refine ⟨(w.index.records.filter (Local.startsWith (Chunk.idStart key.user key.repo))).length + 1,
    fun pageLimit hlimit => ?_⟩
  obtain ⟨calls, hchunks⟩ := Local.outcome_deleteChunks_of_lt hquiet hsorted hsize (Nat.lt_of_succ_le hlimit)
  obtain ⟨found, jobs, hrecord, _⟩ := hremoves hread
  have hlater : job.holdsKey ((service.onLocal pageLimit).oldest w.readings) = false :=
    Job.holdsKey_of_le (Int.sub_le_sub_right hclock _) hfree
  have hlocal : (service.onLocal pageLimit).jobs.ReadsKeep := hreads
  exact ⟨_, outcome_delete_of_deleted hlocal hread hlater hchunks hrecord, rfl⟩

theorem deletesWhole (hseparate : service.jobs.Separate) (w : World J R V) :
    DeletesWhole service key w := by
  have hends : ∀ {answer w'}, outcome (service.delete key) w = (answer, w') →
      DeletionEnds service key w answer w' := by
    intro answer w' h
    have hall := delete_ends hreads key w
    rwa [h] at hall
  constructor
  · intro answer w' h hkept
    cases hends h with
    | notFound hread => exact ⟨rfl, rfl, .inl ⟨rfl, hread⟩⟩
    | active hread hholds => exact ⟨rfl, rfl, .inr ⟨rfl, _, hread, hholds⟩⟩
    | deleted => exact absurd rfl (hkept _)
  · intro failure w' h
    cases hends h with
    | unread hread => exact ⟨rfl, .inl ⟨hread, rfl⟩⟩
    | chunksLeft hread hfree hchunks =>
        exact ⟨rfl, .inr ⟨hchunks, canDelete_of_free hreads hremoves hread hfree⟩⟩
    | recordLeft hread hchunks hrecord =>
        obtain ⟨found, jobs, hremoved, _⟩ := hremoves hread
        cases hrecord.symm.trans hremoved
  · intro count w' h
    cases hends h with
    | deleted hread hchunks hrecord =>
        obtain ⟨found, jobs, hremoved, hnone⟩ := hremoves hread
        cases hrecord.symm.trans hremoved
        refine ⟨hchunks, hnone, fun other hne => ?_⟩
        have hother := hseparate.delete w.jobs hne
        rwa [hrecord] at hother

end Whole

/-- Whichever store keeps the records and whatever it holds, and whatever the index answers: the deletion of a
repository is whole, or all records are kept and it can be made again. -/
theorem delete_whole {R V : Type} (key : Job.Key) :
    (∀ (service : Service Job.Memory R V) (w : World Job.Memory R V), service.jobs = Job.Memory.store →
      DeletesWhole service key w) ∧
    (∀ (service : Service Job.Table R V) (w : World Job.Table R V), service.jobs = Job.Table.store →
      DeletesWhole service key w) := by
  constructor
  · rintro ⟨_, host, index, filter, catalog, clock, timeout, staleAfter, pageLimit⟩ w rfl
    exact deletesWhole Job.Memory.readsKeep JobStore.memory_removes JobStore.memory_separate w
  · rintro ⟨_, host, index, filter, catalog, clock, timeout, staleAfter, pageLimit⟩ w rfl
    exact deletesWhole Job.Table.readsKeep JobStore.table_removes JobStore.table_separate w

/-- A repository whose run is over. -/
def indexedJob : Job := { Job.fresh ⟨"u1", "acme/app"⟩ (repoUrl "acme/app") 0 with status := .completed }

/-- It is stored with one record beside another one, in an index that lists and searches only at a second call. -/
def busyWorld : World Job.Memory Unit Local :=
  { bareWorld [] with
    jobs := ⟨[indexedJob], []⟩
    index := { twoRecords with
      failures := ⟨none, some (.api 503 "busy"), none, some (.api 503 "busy")⟩ } }

theorem delete_whole_busyWorld :
    ∃ failure w', outcome (bareService.delete indexedJob.key) busyWorld = (.error failure, w') ∧
      w'.jobs = busyWorld.jobs ∧
      ∃ limit, ∀ pageLimit, limit ≤ pageLimit → ∃ w₂,
        outcome ((bareService.onLocal pageLimit).delete indexedJob.key) { w' with index := twoRecords } =
          (.ok (.deleted 1), w₂) ∧
        w₂.index.records = [otherRecord] := by
  have hread : bareService.jobs.read indexedJob.key busyWorld.jobs = .ok (some indexedJob) := by decide +kernel
  have herror : (outcome (bareService.delete indexedJob.key) busyWorld).1 =
      .error ⟨[deletionAttempt "acme/app"], .index (.api 503 "busy")⟩ := by decide +kernel
  obtain ⟨hkept, hfailed⟩ :=
    ((delete_whole indexedJob.key).1 bareService busyWorld rfl).failed (Prod.ext herror rfl)
  refine ⟨_, _, Prod.ext herror rfl, hkept, ?_⟩
  rcases hfailed with ⟨hunread, _⟩ | ⟨_, hagain⟩
  · cases hread.symm.trans hunread
  · have hsize : (twoRecords.records.filter
        (Local.startsWith (Chunk.idStart "u1" "acme/app"))).length ≤ Text.maxWord64 := by
      rw [filter_twoRecords.1]
      decide
    obtain ⟨limit, hlater⟩ := hagain
      (w := { (outcome (bareService.delete indexedJob.key) busyWorld).2 with index := twoRecords })
      rfl (Int.natCast_nonneg _) sorted_twoRecords rfl hsize
    refine ⟨limit, fun pageLimit hlimit => ?_⟩
    obtain ⟨w₂, houtcome, hrecords⟩ := hlater pageLimit hlimit
    refine ⟨w₂, houtcome.trans ?_, hrecords.trans filter_twoRecords.2⟩
    exact congrArg (fun records => (Except.ok (Deletion.deleted records.length), w₂)) filter_twoRecords.1

end Service
end SourceIndex
