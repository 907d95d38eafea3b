import SourceIndex.Proofs.Archive.Contents
import SourceIndex.Proofs.Service.Stages
import SourceIndex.Proofs.VectorIndex.Listing

/-! A run on the index within the process, while no failure waits for it, rebuilds the namespace of its
key. The deletion takes out every record of the namespace and no other, and what is stored afterwards
overlays the rest in the order of the files, so of chunks with one id the last one stays. None of this
looks at the records that were there before. -/

namespace SourceIndex.Service
open Step VectorIndex VectorIndex.Local

variable {J R : Type} {service : Service J R Local}

/-- What the ids of the chunks of a key start with. -/
def startOf (key : Job.Key) : String := Chunk.idStart key.user key.repo

/-! ### Overlaying a namespace -/

section Overlay

variable {start : String} {stored new : List Record}

theorem lookup_outside {id : String} (hid : start.toList.isPrefixOf id.toList = true) :
    lookup id (stored.filter fun r => !startsWith start r) = none := by
  refine lookup_eq_none.mpr fun r hr heq => ?_
  have hout := (List.mem_filter.mp hr).2
  rw [startsWith, heq, hid] at hout
  cases hout

variable (hsorted : Sorted stored) (hnew : ∀ r ∈ new, startsWith start r = true)
include hsorted hnew

/-- Within the namespace there is then what was put in, and nothing of what was there. -/
theorem filter_overlay :
    (insertAll (stored.filter fun r => !startsWith start r) new).filter (startsWith start) =
      insertAll [] new := by
  have hkept := hsorted.filter fun r => !startsWith start r
  refine Sorted.ext ((hkept.insertAll new).filter _) (Sorted.insertAll List.Pairwise.nil new)
    fun id => ?_
  rw [lookup_filter (hkept.insertAll new), lookup_insertAll, lookup_insertAll]
  cases hfound : new.findRev? (·.id == id) with
  | some r =>
      have hstart : startsWith start r = true := hnew r (of_findRev? hfound).1
      rw [Option.some_or, Option.some_or, Option.filter_some, if_pos hstart]
  | none =>
      rw [Option.none_or, Option.none_or, lookup_filter hsorted, Option.filter_filter]
      simp [lookup]

/-- Outside the namespace nothing changes. -/
theorem filter_not_overlay :
    (insertAll (stored.filter fun r => !startsWith start r) new).filter
        (fun r => !startsWith start r) = stored.filter fun r => !startsWith start r := by
  have hkept := hsorted.filter fun r => !startsWith start r
  refine Sorted.ext ((hkept.insertAll new).filter _) hkept fun id => ?_
  rw [lookup_filter (hkept.insertAll new), lookup_insertAll]
  cases hfound : new.findRev? (·.id == id) with
  | some r =>
      obtain ⟨hmem, rfl⟩ := of_findRev? hfound
      have hstart : startsWith start r = true := hnew r hmem
      rw [lookup_outside hstart, Option.some_or, Option.filter_some, hstart]
      rfl
  | none =>
      rw [Option.none_or, lookup_filter hsorted, Option.filter_filter]
      simp

end Overlay

/-! ### The stages -/

section Local

variable (hjobs : service.jobs.Separate) (hindex : service.index = Local.index)
include hjobs hindex

/-- Storing batches puts their chunks over the records, in order. -/
theorem storeBatches_ok {key : Job.Key} {total : Nat} {batches : List (List Chunk)} :
    ∀ {done : Nat} {event event' : Progress.Event} {w w' : World J R Local}, w.index.Quiet →
      outcome (service.storeBatches key total done event batches) w = (.ok event', w') →
      w'.index.Quiet ∧ w'.index.records = insertAll w.index.records (batches.flatten.map recordOf) ∧
        w'.host = w.host ∧ service.OthersKept key w w' := by
  induction batches with
  | nil =>
      intro done event event' w w' hquiet h
      rw [storeBatches, outcome_pure] at h
      cases h
      exact ⟨hquiet, rfl, rfl, fun _ _ => rfl⟩
  | cons batch rest ih =>
      intro done event event' w w' hquiet h
      rw [storeBatches_cons] at h
      obtain ⟨_, w₁, hstore, h⟩ := outcome_bind_ok h
      obtain ⟨event₁, w₂, hadvance, h⟩ := outcome_bind_ok h
      obtain ⟨hupsert, hw₁⟩ := onIndex_ok (outcome_mapError_ok hstore)
      obtain ⟨calls, hstored⟩ := outcome_upsertChunks hquiet batch
      rw [hindex, hstored, Prod.mk.injEq] at hupsert
      have haside := advance_ok hjobs hadvance
      rw [← hupsert.2] at hw₁
      have hindex₂ := haside.index
      rw [hw₁] at hindex₂
      obtain ⟨hquiet', hrecords, hhost, hothers⟩ := ih (hindex₂ ▸ hquiet.after calls _) h
      refine ⟨hquiet', ?_, ?_, ?_⟩
      · rw [hrecords, hindex₂, after_records, List.flatten_cons, List.map_append, insertAll_append]
      · rw [hhost, haside.host, hw₁]
      · have hbefore : service.OthersKept key w w₁ := by
          rw [hw₁]
          exact fun _ _ => rfl
        exact (hbefore.trans haside.jobs).trans hothers

/-- The second stage keeps what is outside the namespace and puts the new chunks over it. -/
theorem rebuildStage_ok {key : Job.Key} {branch : String} {contents : Archive.Contents}
    {event : Progress.Event} {summary : Summary} {w w' : World J R Local}
    (hsorted : Sorted w.index.records) (hquiet : w.index.Quiet)
    (hsize : w.index.records.length ≤ Text.maxWord64)
    (h : outcome (service.rebuildStage key branch contents event) w = (.ok summary, w')) :
    w'.index.records =
        insertAll (w.index.records.filter fun r => !startsWith (startOf key) r)
          ((service.chunksOf (contextOf key branch) contents.files).map recordOf) ∧
      w'.host = w.host ∧ service.OthersKept key w w' ∧
      summary =
        ⟨branch, contents.files.length, service.failingFiles contents.files,
          (service.chunksOf (contextOf key branch) contents.files).length,
          (w.index.records.filter (startsWith (startOf key))).length⟩ := by
  rw [rebuildStage] at h
  obtain ⟨deleted, w₁, hdelete, h⟩ := outcome_bind_ok h
  obtain ⟨⟨found, event₁⟩, w₂, hextract, h⟩ := outcome_bind_ok h
  obtain ⟨event₂, w₃, hdone, h⟩ := outcome_bind_ok h
  obtain ⟨event₃, w₄, hstore, h⟩ := outcome_bind_ok h
  obtain ⟨now, w₅, hnow, h⟩ := outcome_bind_ok h
  obtain ⟨event₄, w₆, hfinish, h⟩ := outcome_bind_ok h
  rw [outcome_pure] at h
  cases h
  obtain ⟨hdelete, hw₁⟩ := onIndex_ok hdelete
  have hfew : (w.index.records.filter (startsWith (Chunk.idStart key.user key.repo))).length ≤
      Text.maxWord64 := Nat.le_trans (List.length_filter_le _ _) hsize
  obtain ⟨calls, hdeleted⟩ := outcome_deleteChunks hquiet hsorted hfew service.pageLimit
  rw [hindex, hdeleted] at hdelete
  split at hdelete
  · rw [Prod.mk.injEq, Except.ok.injEq] at hdelete
    obtain ⟨hfound, haside₂⟩ := extractions_ok hjobs hextract
    have haside₃ := advance_ok hjobs hdone
    rw [outcome_now] at hnow
    cases hnow
    have haside₆ := advance_ok hjobs hfinish
    have hindex₃ : w₃.index = w.index.after calls
        (w.index.records.filter fun r => !startsWith (startOf key) r) := by
      rw [haside₃.index, haside₂.index, ← hdelete.2]
      rfl
    obtain ⟨_, hrecords, hhost, hothers⟩ :=
      storeBatches_ok hjobs hindex (hindex₃ ▸ hquiet.after calls _) hstore
    rw [flatten_batches (by decide), hindex₃, after_records] at hrecords
    have hbefore : service.OthersKept key w w₁ := by
      rw [hw₁]
      exact fun _ _ => rfl
    refine ⟨?_, ?_, ?_, ?_⟩
    · rw [haside₆.index]
      exact hrecords.trans (by rw [hfound])
    · rw [haside₆.host]
      exact hhost.trans (by rw [haside₃.host, haside₂.host, hw₁])
    · exact (((hbefore.trans haside₂.jobs).trans haside₃.jobs).trans hothers).trans haside₆.jobs
    · rw [← hdelete.1, hfound]
      rfl
  · cases hdelete

end Local

/-! ### The run -/

/-- The records in the namespace of a key. -/
def namespaceRecords (key : Job.Key) (w : World J R Local) : List Record :=
  w.index.records.filter (startsWith (startOf key))

/-- What a run leaves that came to its end: in the namespace of its key exactly the chunks of the files,
the last one of each id; every other record and the jobs of every other key as they were; and the
summary counts what went, what came and what was passed over. -/
structure Rebuilt (service : Service J R Local) (key : Job.Key) (branch : String)
    (files : List (String × String)) (summary : Summary) (w w' : World J R Local) : Prop where
  sorted : Sorted w'.index.records
  inside : ∀ r, startsWith (startOf key) r = true →
    (r ∈ w'.index.records ↔
      ((service.chunksOf (contextOf key branch) files).map recordOf).findRev? (·.id == r.id) = some r)
  outside : w'.index.records.filter (fun r => !startsWith (startOf key) r) =
    w.index.records.filter fun r => !startsWith (startOf key) r
  jobs : service.OthersKept key w w'
  counts : summary =
    { branch
      files := files.length
      failedFiles := service.failingFiles files
      chunks := (service.chunksOf (contextOf key branch) files).length
      deletedChunks := (namespaceRecords key w).length }

section Run

variable (hjobs : service.jobs.Separate) (hindex : service.index = Local.index)
include hjobs hindex

theorem run_records {key : Job.Key} {summary : Summary} {w w' : World J R Local}
    (hsorted : Sorted w.index.records) (hquiet : w.index.Quiet)
    (hsize : w.index.records.length ≤ Text.maxWord64)
    (h : outcome (service.run key) w = (.ok summary, w')) :
    ∃ name branch archive contents, RepoName.ofFullName? key.repo = some name ∧
      (outcome (hostAnswer service.host name key.user) w.host).1 = .ok (some (branch, archive)) ∧
      Archive.Contents.read service.filter archive = .ok contents ∧
      namespaceRecords key w' =
        insertAll [] ((service.chunksOf (contextOf key branch) contents.files).map recordOf) ∧
      service.Rebuilt key branch contents.files summary w w' := by
  obtain ⟨name, branch, archive, contents, event, w₁, hname, hhost, hread, hindex₁, hothers₁, h⟩ :=
    run_ok hjobs h
  obtain ⟨hrecords, _, hothers, hsummary⟩ :=
    rebuildStage_ok hjobs hindex (hindex₁ ▸ hsorted) (hindex₁ ▸ hquiet) (hindex₁ ▸ hsize) h
  rw [hindex₁] at hrecords hsummary
  generalize hnew : (service.chunksOf (contextOf key branch) contents.files).map recordOf = new
    at hrecords
  have hstart : ∀ r ∈ new, startsWith (startOf key) r = true := by
    intro r hr
    obtain ⟨chunk, hchunk, rfl⟩ := List.mem_map.mp (hnew ▸ hr)
    have hchunkStart := start_of_mem_chunksOf service hchunk
    rw [startsWith, startOf]
    exact hchunkStart
  have hin := filter_overlay hsorted hstart
  have hout := filter_not_overlay hsorted hstart
  rw [← hrecords] at hin hout
  have hsorted' : Sorted w'.index.records := by
    rw [hrecords]
    exact (hsorted.filter _).insertAll new
  refine ⟨name, branch, archive, contents, hname, congrArg Prod.fst hhost, hread, hnew ▸ hin, hsorted',
    ?_, hout, hothers₁.trans hothers, hsummary⟩
  · intro r hr
    have hmem : r ∈ w'.index.records ↔ r ∈ insertAll [] new := by
      rw [← hin, List.mem_filter, and_iff_left hr]
    rw [hmem, mem_iff_lookup (Sorted.insertAll List.Pairwise.nil new), lookup_insertAll, hnew]
    simp [lookup]

/-- For every content of the index a run that comes to its end rebuilds its namespace from the files
that the host answers with, in the order of their paths. What it leaves there is the same for every
earlier content, on whatever world the run was started that has the same host. The cursor of a scan is
a word, so the records are no more than a word can count. -/
theorem run_rebuilds {key : Job.Key} {summary : Summary} {w w' : World J R Local}
    (hsorted : Sorted w.index.records) (hquiet : w.index.Quiet)
    (hsize : w.index.records.length ≤ Text.maxWord64)
    (h : outcome (service.run key) w = (.ok summary, w')) :
    (∃ name branch archive contents, RepoName.ofFullName? key.repo = some name ∧
      (outcome (hostAnswer service.host name key.user) w.host).1 = .ok (some (branch, archive)) ∧
      Archive.Contents.read service.filter archive = .ok contents ∧
      Archive.Contents.Sorted contents.files ∧
      service.Rebuilt key branch contents.files summary w w') ∧
    ∀ {other summary₂ other'}, Sorted other.index.records → other.index.Quiet →
      other.index.records.length ≤ Text.maxWord64 → other.host = w.host →
      outcome (service.run key) other = (.ok summary₂, other') →
      namespaceRecords key other' = namespaceRecords key w' := by
  obtain ⟨name, branch, archive, contents, hname, hhost, hread, hnamespace, hrebuilt⟩ :=
    run_records hjobs hindex hsorted hquiet hsize h
  refine ⟨⟨name, branch, archive, contents, hname, hhost, hread,
    Archive.Contents.read_sorted hread, hrebuilt⟩, ?_⟩
  intro other summary₂ other' hsorted₂ hquiet₂ hsize₂ hsame h₂
  obtain ⟨name₂, branch₂, archive₂, contents₂, hname₂, hhost₂, hread₂, hnamespace₂, _⟩ :=
    run_records hjobs hindex hsorted₂ hquiet₂ hsize₂ h₂
  obtain rfl : name₂ = name := Option.some.inj (hname₂.symm.trans hname)
  rw [hsame, hhost] at hhost₂
  cases hhost₂
  rw [hread] at hread₂
  cases hread₂
  rw [hnamespace₂, hnamespace]

end Run

/-- What is left of a file that can be read and one that cannot, beside a record of another namespace; before that
the namespace has held a record or none. -/
theorem run_rebuilds_twoFiles :
    let w' := (outcome (twoFilesService.run appKey) (bareWorld strayRecords)).2
    (∃ name branch archive contents, RepoName.ofFullName? "acme/app" = some name ∧
      (outcome (hostAnswer twoFilesService.host name "u1") ()).1 = .ok (some (branch, archive)) ∧
      Archive.Contents.read twoFilesService.filter archive = .ok contents ∧
      Archive.Contents.Sorted contents.files ∧
      twoFilesService.Rebuilt appKey branch contents.files ⟨"main", 2, 1, 2, 1⟩ (bareWorld strayRecords) w') ∧
    namespaceRecords appKey (outcome (twoFilesService.run appKey) (bareWorld [])).2 = namespaceRecords appKey w' := by
  intro w'
  obtain ⟨hrun, hother⟩ := summary_twoFiles
  have hsorted : Sorted strayRecords := by
    rw [Sorted]
    decide +kernel
  obtain ⟨hrebuilt, hsame⟩ :=
    run_rebuilds (w := bareWorld strayRecords) JobStore.memory_separate rfl hsorted rfl (by decide)
      (outcome_of_toOption hrun)
  refine ⟨hrebuilt, hsame ?_ ?_ ?_ ?_ (outcome_of_toOption hother)⟩
  · exact List.Pairwise.nil
  · rfl
  · decide
  · rfl

end SourceIndex.Service
