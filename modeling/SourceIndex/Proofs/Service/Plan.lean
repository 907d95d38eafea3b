import SourceIndex.Proofs.Service.Stages
import SourceIndex.Proofs.VectorIndex.Batches

/-! The plan of a run: the updates that it writes from its start to its end, given the branch, the number
of files and the number of chunks. On a record that was reset the updates raise the percentage from step
to step, keep it under a hundred up to the last one and count no more files than there are; so does any
beginning of the plan, and an update that ends the run with a message may follow any of them but the
whole. -/

namespace SourceIndex

namespace Job

/-- The record after updates, each with the second at which it was written. -/
def replay (job : Job) (stamped : List (Update × Int)) : Job :=
  stamped.foldl (fun job entry => job.apply entry.1 entry.2) job

theorem replay_append (job : Job) (first second : List (Update × Int)) :
    job.replay (first ++ second) = (job.replay first).replay second := List.foldl_append

/-- What a record shows of a run that has not failed. -/
structure Shows (job : Job) (status : Status) (percent indexed total : Nat) : Prop where
  status : job.status = status
  progress : job.progress = percent
  indexedFiles : job.indexedFiles = indexed
  totalFiles : job.totalFiles = total
  error : job.error = none

/-- What holds for the record of a run at every time. -/
structure Sound (job : Job) : Prop where
  progress : job.status ≠ .completed → job.progress < 100
  files : job.indexedFiles ≤ job.totalFiles
  error : job.error.isSome = true ↔ job.status = .failed
  completed : job.status = .completed →
    job.progress = 100 ∧ job.indexedFiles = job.totalFiles ∧ job.lastIndexed.isSome = true

theorem Shows.sound {job : Job} {status : Status} {percent indexed total : Nat}
    (h : job.Shows status percent indexed total) (hactive : status.isTerminal = false)
    (hpercent : percent < 100) (hfiles : indexed ≤ total) : job.Sound where
  progress _ := h.progress ▸ hpercent
  files := by rw [h.indexedFiles, h.totalFiles]; exact hfiles
  error := by
    rw [h.error, h.status]
    constructor
    · intro hsome
      cases hsome
    · rintro rfl
      cases hactive
  completed hcompleted := by
    rw [h.status] at hcompleted
    subst hcompleted
    cases hactive

end Job

namespace Service
open Job VectorIndex

/-! ### Percentages -/

theorem percentAt_mono {start span done done' total : Nat} (h : done ≤ done') :
    percentAt start span done total ≤ percentAt start span done' total := by
  rw [percentAt, percentAt]
  split
  · exact Nat.le_refl _
  · have hmin : min done total ≤ min done' total := by omega
    exact Nat.add_le_add_left (Nat.div_le_div_right (Nat.mul_le_mul_left span hmin)) start

theorem le_percentAt (start span done total : Nat) : start ≤ percentAt start span done total := by
  rw [percentAt]
  split <;> exact Nat.le_add_right _ _

theorem percentAt_le (start span done total : Nat) :
    percentAt start span done total ≤ start + span := by
  rw [percentAt]
  split
  · exact Nat.le_refl _
  · refine Nat.add_le_add_left (Nat.div_le_of_le_mul ?_) start
    rw [Nat.mul_comm]
    exact Nat.mul_le_mul_right span (Nat.min_le_right _ _)

/-! ### The plan -/

/-- What the updates of a run depend on. -/
structure Plan where
  url : String
  branch : String
  files : Nat
  chunks : Nat
  finishedAt : Time

/-- Of the next files after `done` others, the numbers of files below the total at which a checkpoint
is due. -/
def fileMarksFrom (done count total : Nat) : List Nat :=
  (List.range' (done + 1) count).filter fun done => done % checkpointFiles = 0 && done < total

/-- The multiples of the distance between checkpoints below the number of files. -/
def fileMarks (total : Nat) : List Nat := fileMarksFrom 0 total total

/-- How many chunks are stored after each batch. -/
def chunkMarks (total : Nat) : List Nat :=
  (List.range (batchCount upsertBatch total)).map fun i => min ((i + 1) * upsertBatch) total

namespace Plan

def opening (plan : Plan) : List Update :=
  [branchFound plan.branch plan.url, downloaded, unpacked plan.files]

def fileUpdates (plan : Plan) : List Update := (fileMarks plan.files).map (filesDone plan.files)

def chunkUpdates (plan : Plan) : List Update := (chunkMarks plan.chunks).map (chunksStored plan.chunks)

/-- The updates of a run that comes to its end, in order. -/
def updates (plan : Plan) : List Update :=
  plan.opening ++ (plan.fileUpdates ++ (allFilesDone plan.files ::
    (plan.chunkUpdates ++ [finished plan.finishedAt])))

/-- The updates before the first batch of chunks is stored. -/
def untilStoring (plan : Plan) : List Update :=
  plan.opening ++ plan.fileUpdates ++ [allFilesDone plan.files]

theorem updates_eq (plan : Plan) :
    plan.updates = plan.untilStoring ++ plan.chunkUpdates ++ [finished plan.finishedAt] := by
  simp [updates, untilStoring]

theorem take_updates (plan : Plan) {n : Nat} (h : n ≤ plan.chunkUpdates.length) :
    plan.updates.take (plan.untilStoring.length + n) =
      plan.untilStoring ++ plan.chunkUpdates.take n := by
  rw [updates_eq, List.append_assoc, List.take_length_add_append, List.take_append_of_le_length h]

theorem length_updates (plan : Plan) :
    plan.updates.length = plan.untilStoring.length + plan.chunkUpdates.length + 1 := by
  rw [updates_eq, List.length_append, List.length_append, List.length_singleton]

theorem three_lt_length_updates (plan : Plan) : 3 < plan.updates.length := by
  rw [length_updates, untilStoring, opening, List.length_append, List.length_append]
  simp only [List.length_cons, List.length_nil]
  omega

end Plan

/-! ### Records along the plan -/

/-- The updates may follow each other on a record: each finds a run that goes on, raises the percentage
and leaves a sound record. -/
def Proceeds : Job → List Update → Prop
  | _, [] => True
  | job, update :: rest => job.status.isTerminal = false ∧
      ∀ now, job.progress ≤ (job.apply update now).progress ∧
        (job.apply update now).Sound ∧ Proceeds (job.apply update now) rest

theorem proceeds_filesDone {files : Nat} {rest : List Update}
    (hrest : ∀ (job : Job) percent indexed, percent ≤ 75 → indexed ≤ files →
      job.Shows .indexing percent indexed files → Proceeds job rest) :
    ∀ (marks : List Nat) {job : Job} {percent indexed : Nat},
      job.Shows .indexing percent indexed files → percent ≤ 75 → indexed ≤ files →
      (∀ done ∈ marks, percent ≤ percentAt 25 50 done files ∧ done ≤ files) →
      marks.Pairwise (· ≤ ·) → Proceeds job (marks.map (filesDone files) ++ rest)
  | [], job, percent, indexed, hjob, hpercent, hindexed, _, _ =>
      hrest job percent indexed hpercent hindexed hjob
  | done :: marks, job, percent, indexed, hjob, hpercent, hindexed, hmarks, hsorted => by
      obtain ⟨hraise, hdone⟩ := hmarks done List.mem_cons_self
      have hbound := percentAt_le 25 50 done files
      rw [List.map_cons, List.cons_append, Proceeds]
      refine ⟨by rw [hjob.status]; rfl, fun now => ?_⟩
      have hnext : (job.apply (filesDone files done) now).Shows .indexing
          (percentAt 25 50 done files) done files :=
        ⟨hjob.status, rfl, rfl, hjob.totalFiles, hjob.error⟩
      obtain ⟨hfirst, hlater⟩ := List.pairwise_cons.mp hsorted
      refine ⟨?_, hnext.sound rfl (by omega) hdone, ?_⟩
      · rw [hnext.progress, hjob.progress]
        exact hraise
      · refine proceeds_filesDone hrest marks hnext (by omega) hdone (fun later hmem => ?_) hlater
        exact ⟨percentAt_mono (hfirst later hmem), (hmarks later (List.mem_cons_of_mem _ hmem)).2⟩

theorem proceeds_chunksStored {files chunks : Nat} {rest : List Update}
    (hrest : ∀ (job : Job) percent, percent ≤ 98 → job.Shows .indexing percent files files →
      Proceeds job rest) :
    ∀ (marks : List Nat) {job : Job} {percent : Nat},
      job.Shows .indexing percent files files → percent ≤ 98 →
      (∀ done ∈ marks, percent ≤ percentAt 80 18 done chunks) → marks.Pairwise (· ≤ ·) →
      Proceeds job (marks.map (chunksStored chunks) ++ rest)
  | [], job, percent, hjob, hpercent, _, _ => hrest job percent hpercent hjob
  | done :: marks, job, percent, hjob, hpercent, hmarks, hsorted => by
      have hbound := percentAt_le 80 18 done chunks
      rw [List.map_cons, List.cons_append, Proceeds]
      refine ⟨by rw [hjob.status]; rfl, fun now => ?_⟩
      have hnext : (job.apply (chunksStored chunks done) now).Shows .indexing
          (percentAt 80 18 done chunks) files files :=
        ⟨hjob.status, rfl, hjob.indexedFiles, hjob.totalFiles, hjob.error⟩
      obtain ⟨hfirst, hlater⟩ := List.pairwise_cons.mp hsorted
      refine ⟨?_, hnext.sound rfl (by omega) (Nat.le_refl _), ?_⟩
      · rw [hnext.progress, hjob.progress]
        exact hmarks done List.mem_cons_self
      · exact proceeds_chunksStored hrest marks hnext (by omega)
          (fun later hmem => percentAt_mono (hfirst later hmem)) hlater

theorem fileMarksFrom_zero (done total : Nat) : fileMarksFrom done 0 total = [] := rfl

theorem fileMarksFrom_one (done total : Nat) :
    fileMarksFrom done 1 total =
      if (done + 1) % checkpointFiles = 0 && done + 1 < total then [done + 1] else [] := by
  rw [fileMarksFrom, List.range'_one, List.filter_cons, List.filter_nil]

theorem fileMarksFrom_succ (done count total : Nat) :
    fileMarksFrom done (count + 1) total =
      fileMarksFrom done 1 total ++ fileMarksFrom (done + 1) count total := by
  rw [fileMarksFrom, List.range'_succ, ← List.singleton_append, List.filter_append]
  rfl

theorem fileMarks_spec {total done : Nat} (h : done ∈ fileMarks total) : done < total := by
  have hboth := (List.mem_filter.mp h).2
  rw [Bool.and_eq_true, decide_eq_true_eq, decide_eq_true_eq] at hboth
  exact hboth.2

theorem fileMarks_sorted (total : Nat) : (fileMarks total).Pairwise (· ≤ ·) := by
  refine List.Pairwise.filter _ ?_
  exact List.Pairwise.imp Nat.le_of_lt List.pairwise_lt_range'

theorem chunkMarks_sorted (total : Nat) : (chunkMarks total).Pairwise (· ≤ ·) := by
  rw [chunkMarks, List.pairwise_map]
  refine List.pairwise_lt_range.imp fun {i j} hij => ?_
  have hmul : (i + 1) * upsertBatch ≤ (j + 1) * upsertBatch := Nat.mul_le_mul_right _ (by omega)
  omega

theorem shows_reset (earlier : Job) (url : String) (now : Int) :
    (earlier.reset .cloning url now).Shows .cloning 0 0 0 := ⟨rfl, rfl, rfl, rfl, rfl⟩

/-- From the second half on: all files are done, chunks are stored and the run ends. -/
theorem proceeds_allFilesDone (plan : Plan) {job : Job} {percent indexed : Nat}
    (hpercent : percent ≤ 75) (hjob : job.Shows .indexing percent indexed plan.files) :
    Proceeds job (allFilesDone plan.files :: (plan.chunkUpdates ++ [finished plan.finishedAt])) := by
  refine ⟨by rw [hjob.status]; rfl, fun now => ?_⟩
  have hall : (job.apply (allFilesDone plan.files) now).Shows .indexing 80 plan.files plan.files :=
    ⟨hjob.status, rfl, rfl, hjob.totalFiles, hjob.error⟩
  refine ⟨?_, hall.sound rfl (by decide) (Nat.le_refl _), ?_⟩
  · rw [hall.progress, hjob.progress]
    omega
  · refine proceeds_chunksStored (fun job percent hpercent hjob => ?_) _ hall (by decide)
      (fun done _ => le_percentAt 80 18 done plan.chunks) (chunkMarks_sorted plan.chunks)
    refine ⟨by rw [hjob.status]; rfl, fun now => ⟨?_, ?_, trivial⟩⟩
    · rw [hjob.progress]
      exact Nat.le_trans hpercent (show 98 ≤ 100 by decide)
    · exact ⟨fun hne => absurd rfl hne, Nat.le_of_eq (hjob.indexedFiles.trans hjob.totalFiles.symm),
        by simp [apply, finished, Update.none, hjob.error],
        fun _ => ⟨rfl, hjob.indexedFiles.trans hjob.totalFiles.symm, rfl⟩⟩

/-- The updates of a plan may follow each other on a record that was reset. -/
theorem proceeds_updates (plan : Plan) {job : Job} (hjob : job.Shows .cloning 0 0 0) :
    Proceeds job plan.updates := by
  refine ⟨by rw [hjob.status]; rfl, fun now₁ => ?_⟩
  have hfound : (job.apply (branchFound plan.branch plan.url) now₁).Shows .cloning 5 0 0 :=
    ⟨hjob.status, rfl, hjob.indexedFiles, hjob.totalFiles, hjob.error⟩
  refine ⟨by rw [hjob.progress]; exact Nat.zero_le _, hfound.sound rfl (by decide) (by decide), ?_⟩
  generalize job.apply (branchFound plan.branch plan.url) now₁ = job₁ at hfound ⊢
  refine ⟨by rw [hfound.status]; rfl, fun now₂ => ?_⟩
  have hparsing : (job₁.apply downloaded now₂).Shows .parsing 15 0 0 :=
    ⟨rfl, rfl, hfound.indexedFiles, hfound.totalFiles, hfound.error⟩
  refine ⟨by rw [hfound.progress, hparsing.progress]; decide,
    hparsing.sound rfl (by decide) (by decide), ?_⟩
  generalize job₁.apply downloaded now₂ = job₂ at hparsing ⊢
  refine ⟨by rw [hparsing.status]; rfl, fun now₃ => ?_⟩
  have hindexing : (job₂.apply (unpacked plan.files) now₃).Shows .indexing 25 0 plan.files :=
    ⟨rfl, rfl, hparsing.indexedFiles, rfl, hparsing.error⟩
  refine ⟨by rw [hparsing.progress, hindexing.progress]; decide,
    hindexing.sound rfl (by decide) (Nat.zero_le _), ?_⟩
  refine proceeds_filesDone
    (fun job percent indexed hpercent _ hjob => proceeds_allFilesDone plan hpercent hjob) _ hindexing
    (by decide) (Nat.zero_le _) (fun done hdone => ?_) (fileMarks_sorted plan.files)
  exact ⟨le_percentAt 25 50 done plan.files, Nat.le_of_lt (fileMarks_spec hdone)⟩

/-! ### Beginnings of the plan -/

theorem Proceeds.take {updates : List Update} :
    ∀ {job : Job}, Proceeds job updates → ∀ n, Proceeds job (updates.take n) := by
  induction updates with
  | nil =>
      intro job _ n
      rw [List.take_nil]
      trivial
  | cons update rest ih =>
      intro job h n
      cases n with
      | zero => trivial
      | succ n => exact ⟨h.1, fun now => ⟨(h.2 now).1, (h.2 now).2.1, ih (h.2 now).2.2 n⟩⟩

theorem sound_failed {job : Job} (hjob : job.Sound) (hactive : job.status.isTerminal = false)
    (message : String) (now : Int) : (job.apply (.failed message) now).Sound where
  progress _ := hjob.progress fun hcompleted => by
    rw [hcompleted] at hactive
    cases hactive
  files := hjob.files
  error := ⟨fun _ => rfl, fun _ => rfl⟩
  completed hcompleted := by cases hcompleted

/-- A run may fail after any updates of the plan but the whole of it. -/
theorem Proceeds.failed {updates : List Update} (message : String) :
    ∀ {job : Job}, Proceeds job updates → job.Sound → ∀ {n}, n < updates.length →
      Proceeds job (updates.take n ++ [.failed message]) := by
  induction updates with
  | nil => exact fun _ _ _ h => absurd h (Nat.not_lt_zero _)
  | cons update rest ih =>
      intro job h hjob n hn
      cases n with
      | zero => exact ⟨h.1, fun now => ⟨Nat.le_refl _, sound_failed hjob h.1 message now, trivial⟩⟩
      | succ n =>
          exact ⟨h.1, fun now => ⟨(h.2 now).1, (h.2 now).2.1,
            ih (h.2 now).2.2 (h.2 now).2.1 (Nat.lt_of_succ_lt_succ hn)⟩⟩

/-- Along updates that may follow each other every record is sound. -/
theorem Proceeds.sound {stamped : List (Update × Int)} :
    ∀ {job : Job}, Proceeds job (stamped.map Prod.fst) → job.Sound →
      ∀ n, (job.replay (stamped.take n)).Sound := by
  induction stamped with
  | nil =>
      intro job _ hjob n
      rw [List.take_nil]
      exact hjob
  | cons entry rest ih =>
      intro job h hjob n
      cases n with
      | zero => exact hjob
      | succ n => exact ih (h.2 entry.2).2.2 (h.2 entry.2).2.1 n

/-- Along updates that may follow each other the percentage never falls. -/
theorem Proceeds.progress_le {stamped : List (Update × Int)} :
    ∀ {job : Job}, Proceeds job (stamped.map Prod.fst) → ∀ {m n}, m ≤ n →
      (job.replay (stamped.take m)).progress ≤ (job.replay (stamped.take n)).progress := by
  induction stamped with
  | nil =>
      intro job _ m n _
      exact Nat.le_of_eq (by rw [List.take_nil, List.take_nil])
  | cons entry rest ih =>
      intro job h m n hmn
      cases n with
      | zero =>
          exact Nat.le_of_eq (by rw [Nat.le_zero.mp hmn])
      | succ n =>
          obtain ⟨hraise, _, hrest⟩ := h.2 entry.2
          cases m with
          | zero => exact Nat.le_trans hraise (ih hrest (Nat.zero_le n))
          | succ m => exact ih hrest (Nat.le_of_succ_le_succ hmn)

end Service
end SourceIndex
