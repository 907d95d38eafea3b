import SourceIndex.Proofs.Chunk.Ids
import SourceIndex.Proofs.Chunk.Metadata
import SourceIndex.Proofs.VectorIndex.Removal
import SourceIndex.Proofs.VectorIndex.Scope

/-! Which chunks of others a search or a deletion can reach. Every stored record says whose it is three
times: in the namespace of its id, in its metadata, and by way of the filter in every query for it.
The namespace and the metadata are exact, but a filter has lost the control characters of what it was
made from. So the scan of a namespace deletes chunks of its own repository and user only, while a search
addresses the repository and the user without control characters; and where they have none the deletion
by queries removes their chunks only, too. -/

namespace SourceIndex.VectorIndex
open Step VectorIndex.Filter Chunk.Metadata

/-- The record of a chunk that was built for a user and a repository. -/
def BuiltFor (context : Chunk.Context) (r : Record) : Prop :=
  ∃ path entities chunk, chunk ∈ Chunk.build context path entities ∧ r = recordOf chunk

/-- Sorted by id, and every record is that of a built chunk. -/
structure Stored (records : List Record) : Prop where
  sorted : Local.Sorted records
  built : ∀ r ∈ records, ∃ context, BuiltFor context r

/-- The metadata names a repository and a user. -/
def Carries (repo user : String) (r : Record) : Prop :=
  r.metadata.stringField? repoField = some repo ∧ r.metadata.stringField? userField = some user

/-- No record of another user or repository has the namespace of these. -/
def Unshared (repo user : String) (records : List Record) : Prop :=
  ∀ r ∈ records, ∀ context, BuiltFor context r →
    Chunk.namespaceOf context.user context.repo = Chunk.namespaceOf user repo →
    context.repo = repo ∧ context.user = user

/-! ### What is stored -/

/-! An index starts without records; storing built chunks and removing records keep it that all records
are those of built chunks. -/

theorem stored_nil : Stored [] := ⟨List.Pairwise.nil, fun _ h => nomatch h⟩

theorem Stored.onlyRemoved {kind : Record → Prop} {before after : List Record} (h : Stored before)
    (hremoved : OnlyRemoved kind before after) : Stored after :=
  ⟨hremoved.sorted h.sorted, fun r hr => h.built r (hremoved.subset hr)⟩

theorem Stored.insertAll {records new : List Record} (h : Stored records)
    (hnew : ∀ r ∈ new, ∃ context, BuiltFor context r) : Stored (Local.insertAll records new) := by
  refine ⟨h.sorted.insertAll new, fun r hr => ?_⟩
  have hlook := Local.lookup_of_mem (h.sorted.insertAll new) hr
  rw [Local.lookup_insertAll] at hlook
  rcases Option.or_eq_some_iff.mp hlook with hlast | ⟨_, hold⟩
  · exact hnew r (Local.of_findRev? hlast).1
  · exact h.built r (Local.mem_of_lookup hold)

theorem Stored.upsertBatches {batches : List (List Chunk)}
    (hchunks : ∀ chunk ∈ batches.flatten, ∃ context, BuiltFor context (recordOf chunk)) :
    ∀ {index : Local}, Stored index.records →
      Stored (outcome (upsertBatches Local.index batches) index).2.records := by
  induction batches with
  | nil => exact fun h => h
  | cons batch rest ih =>
      intro index h
      have hfirst : Stored (outcome (Local.index.upsert (batch.map recordOf)) index).2.records := by
        rcases Local.upsert_records (batch.map recordOf) index with hsame | hnew
        · exact hsame ▸ h
        · refine hnew ▸ h.insertAll fun r hr => ?_
          obtain ⟨chunk, hchunk, rfl⟩ := List.mem_map.mp hr
          exact hchunks chunk (List.mem_append_left _ hchunk)
      rw [VectorIndex.upsertBatches, outcome_bind, Action.during, outcome_mapError, outcome_mapError]
      rcases houtcome : outcome (Local.index.upsert (batch.map recordOf)) index with ⟨e | _, index₁⟩
      · rw [houtcome] at hfirst
        exact hfirst
      · rw [houtcome] at hfirst
        exact ih (fun chunk hchunk => hchunks chunk (List.mem_append_right _ hchunk)) hfirst

/-- Storing built chunks keeps it that records are those of built chunks, also when it breaks off. -/
theorem Stored.upsertChunks {index : Local} (h : Stored index.records) {chunks : List Chunk}
    (hchunks : ∀ chunk ∈ chunks, ∃ context, BuiltFor context (recordOf chunk)) :
    Stored (outcome (upsertChunks Local.index chunks) index).2.records := by
  refine Stored.upsertBatches (fun chunk hchunk => hchunks chunk ?_) h
  rwa [flatten_batches (by decide)] at hchunk

theorem BuiltFor.carries {context : Chunk.Context} {r : Record} (h : BuiltFor context r) :
    Carries context.repo context.user r := by
  obtain ⟨path, entities, chunk, hchunk, rfl⟩ := h
  obtain ⟨entity, _, rfl⟩ := Chunk.mem_build hchunk
  exact ⟨stringField?_repo _, stringField?_user _⟩

theorem BuiltFor.namespace_eq {context : Chunk.Context} {r : Record} (h : BuiltFor context r)
    {repo user : String} (hstart : (Chunk.idStart user repo).toList.isPrefixOf r.id.toList = true) :
    Chunk.namespaceOf context.user context.repo = Chunk.namespaceOf user repo := by
  obtain ⟨path, entities, chunk, hchunk, rfl⟩ := h
  obtain ⟨entity, _, rfl⟩ := Chunk.mem_build hchunk
  exact ((Chunk.idStart_isPrefixOf_idFor _ _ _ _ _ _ _).mp hstart).symm

/-- In a namespace that is not shared the start of an id tells whose the record is. -/
theorem Stored.carries_of_start {records : List Record} (h : Stored records) {repo user : String}
    (hunshared : Unshared repo user records) {r : Record} (hr : r ∈ records)
    (hstart : (Chunk.idStart user repo).toList.isPrefixOf r.id.toList = true) :
    Carries repo user r := by
  obtain ⟨context, hbuilt⟩ := h.built r hr
  obtain ⟨rfl, rfl⟩ := hunshared r hr context hbuilt (hbuilt.namespace_eq hstart)
  exact hbuilt.carries

theorem holds_scopeClauses {repo user : String} {r : Record} :
    holds (scopeClauses repo user) r.metadata = true ↔ Carries repo user r := by
  simp [holds, scopeClauses, Carries]

/-! ### What is reached -/

/-- The hits of a search name the repository and the user without control characters. -/
theorem search_hits {index index' : Local} (hstored : Stored index.records) {text repo user : String}
    {topK : Nat} {hits : List Hit}
    (h : outcome (search Local.index text repo user topK) index = (.ok hits, index')) :
    ∀ hit ∈ hits, hit.metadata.repo = printable repo ∧ hit.metadata.user = printable user := by
  rw [search, outcome_bind, outcome_attempt] at h
  rcases hquery : outcome (Local.index.query (searchQuery text repo user topK)) index with
    ⟨result, index₁⟩
  rw [hquery] at h
  cases result with
  | error e =>
      cases e with
      | emptyIndex =>
          cases h
          exact fun _ hit => nomatch hit
      | api _ _ | transport _ | decode _ => cases h
  | ok found =>
      cases h
      intro hit hhit
      obtain ⟨m, hm, hhit⟩ := List.mem_filterMap.mp hhit
      have hfilter : (searchQuery text repo user topK).filter = some (scope repo user) := rfl
      have hfound := Local.query_ok hfilter (parse?_scope repo user) hquery
      rw [hfound] at hm
      obtain ⟨r, hr, hholds, _, hnone | hmetadata⟩ := Local.of_mem_matchesOf hm
      · rw [Match.hit?, hnone] at hhit
        cases hhit
      obtain ⟨hrepo, huser⟩ := holds_scopeClauses.mp hholds
      obtain ⟨context, path, entities, chunk, _, rfl⟩ := hstored.built r hr
      rw [Match.hit?, hmetadata, Option.bind_some, Option.map_eq_some_iff] at hhit
      obtain ⟨metadata, hread, rfl⟩ := hhit
      obtain ⟨hsameRepo, hsameUser⟩ := scope_of_ofJson?_toJson hread
      have hfields : Carries chunk.metadata.repo chunk.metadata.user (recordOf chunk) :=
        ⟨stringField?_repo _, stringField?_user _⟩
      rw [hfields.1, Option.some.injEq] at hrepo
      rw [hfields.2, Option.some.injEq] at huser
      exact ⟨hsameRepo.trans hrepo, hsameUser.trans huser⟩

/-- Searches and deletions stay with a repository and a user. Hits carry both without their control characters. What
the scan of the namespace removes carries both as they are, and so does all that a deletion removes whose scan does not
fail. Where neither has control characters, the rounds of queries and the whole deletion remove nothing else either,
whichever calls fail on the way. -/
theorem scope_isolated {index : Local} (hstored : Stored index.records) {repo user : String}
    (hunshared : Unshared repo user index.records) :
    (∀ text topK hits index',
      outcome (search Local.index text repo user topK) index = (.ok hits, index') →
      ∀ hit ∈ hits, hit.metadata.repo = printable repo ∧ hit.metadata.user = printable user) ∧
    (∀ fuel, OnlyRemoved (Carries repo user) index.records
      (outcome (deleteByStart Local.index fuel (Chunk.idStart user repo)) index).2.records) ∧
    (∀ fuel, (∀ e, (outcome (deleteByStart Local.index fuel (Chunk.idStart user repo)) index).1 = .error e →
        e = .emptyIndex) →
      OnlyRemoved (Carries repo user) index.records
        (outcome (deleteChunks Local.index fuel repo user) index).2.records) ∧
    ((∀ c ∈ repo.toList ++ user.toList, Text.isControl c = false) →
      printable repo = repo ∧ printable user = user ∧
      (∀ rounds, OnlyRemoved (Carries repo user) index.records
        (outcome (deleteRounds Local.index (deletionQuery repo user) rounds) index).2.records) ∧
      ∀ fuel, OnlyRemoved (Carries repo user) index.records
        (outcome (deleteChunks Local.index fuel repo user) index).2.records) := by
  have hscan : ∀ fuel, OnlyRemoved (Carries repo user) index.records
      (outcome (deleteByStart Local.index fuel (Chunk.idStart user repo)) index).2.records := fun fuel =>
    (Local.deleteByStart_onlyRemoved fuel _ index).mono fun r hr hstart =>
      hstored.carries_of_start hunshared hr hstart
  refine ⟨fun text topK hits index' h => search_hits hstored h, hscan, fun fuel hends => ?_, fun hprintable => ?_⟩
  · rw [Local.deleteChunks_of_scan hends]
    exact hscan fuel
  · have hclauses := parse?_scope_of_printable hprintable
    have hcarries : ∀ r, holds (scopeClauses repo user) r.metadata = true → Carries repo user r :=
      fun r hholds => holds_scopeClauses.mp hholds
    refine ⟨printable_eq_self fun c hc => hprintable c (List.mem_append_left _ hc),
      printable_eq_self fun c hc => hprintable c (List.mem_append_right _ hc), fun rounds => ?_, fun fuel => ?_⟩
    · have hfilter : (deletionQuery repo user).filter = some (scope repo user) := rfl
      exact (Local.deleteRounds_onlyRemoved hfilter hclauses rounds hstored.sorted).mono fun r _ => hcarries r
    · refine (Local.deleteChunks_onlyRemoved hclauses hstored.sorted fuel).mono fun r hr hreached => ?_
      rcases hreached with hstart | hholds
      · exact hstored.carries_of_start hunshared hr hstart
      · exact hcarries r hholds

/-! ### One chunk -/

/-- A function without a text. -/
def emptyFunction (name : String) : Entity :=
  { kind := .function
    name
    startLine := 1
    endLine := 1
    content := ""
    imports := []
    exports := []
    parent := none
    calls := []
    doc := none }

/-- The record of a function in a repository of a user. -/
def functionRecord (user repo : String) : Record :=
  recordOf (Chunk.ofEntity ⟨user, repo, "main"⟩ "src/lib.rs" (emptyFunction "f0"))

theorem functionRecord_builtFor (user repo : String) :
    BuiltFor ⟨user, repo, "main"⟩ (functionRecord user repo) :=
  ⟨"src/lib.rs", [emptyFunction "f0"], _, List.mem_singleton.mpr rfl, rfl⟩

theorem stored_functionRecord (user repo : String) : Stored [functionRecord user repo] := by
  refine ⟨List.pairwise_singleton _ _, fun r hr => ?_⟩
  rw [List.mem_singleton.mp hr]
  exact ⟨_, functionRecord_builtFor user repo⟩

theorem context_of_functionRecord {user repo : String} {context : Chunk.Context}
    (h : BuiltFor context (functionRecord user repo)) : context.repo = repo ∧ context.user = user := by
  have hown := (functionRecord_builtFor user repo).carries
  have hother := h.carries
  exact ⟨Option.some.inj (hother.1.symm.trans hown.1), Option.some.inj (hother.2.symm.trans hown.2)⟩

/-- The index holds one function of a user in a repository. -/
def functionIndex (user repo : String) : Local := ⟨[functionRecord user repo], [], .none⟩

/-- A control character in the name of a user is not looked at by a search: who is named like another
user but for such a character finds the chunks of that user, although the namespaces differ. -/
theorem search_ignores_control :
    Stored (functionIndex "u1" "acme/app").records ∧
    Unshared "acme/app" "u1\x01" (functionIndex "u1" "acme/app").records ∧
    ∃ hits, (outcome (search Local.index "f0" "acme/app" "u1\x01" 10)
        (functionIndex "u1" "acme/app")).1 = .ok hits ∧
      ∃ hit ∈ hits, hit.metadata.user ≠ "u1\x01" := by
  refine ⟨stored_functionRecord "u1" "acme/app", ?_, ?_⟩
  · intro r hr context hbuilt hsame
    rw [List.mem_singleton.mp hr] at hbuilt
    obtain ⟨hrepo, huser⟩ := context_of_functionRecord hbuilt
    rw [hrepo, huser] at hsame
    exact absurd hsame (by decide +kernel)
  · have hfound : ((outcome (search Local.index "f0" "acme/app" "u1\x01" 10)
        (functionIndex "u1" "acme/app")).1.toOption.map (·.map (·.metadata.user))) = some ["u1"] := by
      decide +kernel
    cases houtcome : (outcome (search Local.index "f0" "acme/app" "u1\x01" 10)
        (functionIndex "u1" "acme/app")).1 with
    | error failure =>
        rw [houtcome] at hfound
        cases hfound
    | ok hits =>
        rw [houtcome] at hfound
        obtain ⟨hit, rfl, huser⟩ := List.map_eq_singleton_iff.mp (Option.some.inj hfound)
        refine ⟨[hit], rfl, hit, List.mem_singleton.mpr rfl, ?_⟩
        rw [huser]
        decide

/-! ### Two users -/

/-- Two users have a function each in a repository of one name. -/
def twoFunctions : Local :=
  ⟨[functionRecord "u1" "acme/app", functionRecord "u2" "acme/app"], [], .none⟩

theorem mem_twoFunctions {r : Record} (h : r ∈ twoFunctions.records) :
    r = functionRecord "u1" "acme/app" ∨ r = functionRecord "u2" "acme/app" :=
  (List.mem_cons.mp h).imp_right List.mem_singleton.mp

theorem stored_twoFunctions : Stored twoFunctions.records := by
  have hsorted : (functionRecord "u1" "acme/app").id < (functionRecord "u2" "acme/app").id := by
    decide +kernel
  refine ⟨List.pairwise_pair.mpr hsorted, fun r hr => ?_⟩
  rcases mem_twoFunctions hr with rfl | rfl
  · exact ⟨_, functionRecord_builtFor "u1" "acme/app"⟩
  · exact ⟨_, functionRecord_builtFor "u2" "acme/app"⟩

theorem unshared_twoFunctions : Unshared "acme/app" "u1" twoFunctions.records := by
  intro r hr context hbuilt hsame
  rcases mem_twoFunctions hr with rfl | rfl
  · exact context_of_functionRecord hbuilt
  · obtain ⟨hrepo, huser⟩ := context_of_functionRecord hbuilt
    rw [hrepo, huser] at hsame
    exact absurd hsame (by decide +kernel)

/-- One user finds the own chunk and not that of the other, and a deletion leaves that chunk, whichever calls fail on
the way. -/
theorem scope_isolated_twoFunctions :
    (∃ hits index', outcome (search Local.index "f0" "acme/app" "u1" 10) twoFunctions = (.ok hits, index') ∧
      hits.length = 1 ∧ ∀ hit ∈ hits, hit.metadata.repo = "acme/app" ∧ hit.metadata.user = "u1") ∧
    ∀ failures fuel, functionRecord "u2" "acme/app" ∈
      (outcome (deleteChunks Local.index fuel "acme/app" "u1") { twoFunctions with failures }).2.records := by
  have hcontrol : ∀ c ∈ "acme/app".toList ++ "u1".toList, Text.isControl c = false := isControl_of_all (by decide)
  constructor
  · have hfound : (outcome (search Local.index "f0" "acme/app" "u1" 10) twoFunctions).1.toOption.map List.length =
        some 1 := by
      decide +kernel
    obtain ⟨hits, hresult, hlength⟩ := Option.map_eq_some_iff.mp hfound
    have hsearch := outcome_of_toOption hresult
    obtain ⟨hhits, -, -, hprintable⟩ := scope_isolated stored_twoFunctions unshared_twoFunctions
    obtain ⟨hrepo, huser, -⟩ := hprintable hcontrol
    refine ⟨hits, _, hsearch, hlength, fun hit hhit => ?_⟩
    rw [← hrepo, ← huser]
    exact hhits _ _ _ _ hsearch hit hhit
  · intro failures fuel
    have hstored : Stored ({ twoFunctions with failures } : Local).records := stored_twoFunctions
    have hremoved := ((scope_isolated hstored unshared_twoFunctions).2.2.2 hcontrol).2.2.2 fuel
    refine hremoved.mem_of_not (List.mem_cons_of_mem _ (List.mem_singleton.mpr rfl)) fun hcarries => ?_
    have huser := hcarries.2
    rw [(functionRecord_builtFor "u2" "acme/app").carries.2] at huser
    exact absurd huser (by decide)

end SourceIndex.VectorIndex
