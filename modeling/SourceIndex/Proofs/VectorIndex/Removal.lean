import SourceIndex.Proofs.Step
import SourceIndex.Proofs.VectorIndex.Batches
import SourceIndex.Proofs.VectorIndex.Stored
import SourceIndex.VectorIndex.Chunks

/-! What calls do to the records of the index within the process, whichever failures wait for them.
Reading leaves the records, storing overlays them or leaves them, and a deletion only takes out records
whose ids it was given. So a deletion by the start of ids takes out nothing that starts otherwise, and
one by queries takes out nothing that the clauses do not hold for, also when it breaks off. -/

namespace SourceIndex.VectorIndex
open Step

/-- Records of one kind were removed, and the others are as before. -/
def OnlyRemoved (kind : Record → Prop) (before after : List Record) : Prop :=
  ∃ keep : Record → Bool, after = before.filter keep ∧ ∀ r ∈ before, keep r = false → kind r

namespace OnlyRemoved

variable {kind kind' : Record → Prop} {before between after : List Record}

theorem refl (kind : Record → Prop) (records : List Record) : OnlyRemoved kind records records :=
  ⟨fun _ => true, (List.filter_eq_self.mpr fun _ _ => rfl).symm, fun _ _ h => nomatch h⟩

theorem subset (h : OnlyRemoved kind before after) {r : Record} (hr : r ∈ after) : r ∈ before := by
  obtain ⟨keep, rfl, _⟩ := h
  exact (List.mem_filter.mp hr).1

/-- What is not of the kind is still there. -/
theorem mem_of_not (h : OnlyRemoved kind before after) {r : Record} (hr : r ∈ before) (hkind : ¬kind r) :
    r ∈ after := by
  obtain ⟨keep, rfl, hremoved⟩ := h
  refine List.mem_filter.mpr ⟨hr, ?_⟩
  cases hkeep : keep r with
  | true => rfl
  | false => exact absurd (hremoved r hr hkeep) hkind

theorem sorted (h : OnlyRemoved kind before after) (hsorted : Local.Sorted before) :
    Local.Sorted after := by
  obtain ⟨keep, rfl, _⟩ := h
  exact hsorted.filter keep

theorem trans (h : OnlyRemoved kind before between) (h' : OnlyRemoved kind between after) :
    OnlyRemoved kind before after := by
  obtain ⟨keep, rfl, hkeep⟩ := h
  obtain ⟨keep', rfl, hkeep'⟩ := h'
  refine ⟨fun r => keep r && keep' r, ?_, ?_⟩
  · rw [List.filter_filter]
    exact List.filter_congr fun r _ => Bool.and_comm _ _
  · intro r hr hgone
    cases hr₁ : keep r with
    | false => exact hkeep r hr hr₁
    | true =>
        simp only [hr₁, Bool.true_and] at hgone
        exact hkeep' r (List.mem_filter.mpr ⟨hr, hr₁⟩) hgone

theorem mono (h : OnlyRemoved kind before after) (himp : ∀ r ∈ before, kind r → kind' r) :
    OnlyRemoved kind' before after := by
  obtain ⟨keep, hafter, hkeep⟩ := h
  exact ⟨keep, hafter, fun r hr hgone => himp r hr (hkeep r hr hgone)⟩

end OnlyRemoved

namespace Local

/-! ### Single calls -/

/-- Entering a call leaves the records, whether the call may go on or not. -/
theorem enter_cases (call : Call) (waiting : Failures → Option Error) (clear : Failures → Failures)
    (index : Local) :
    ∃ index', index'.records = index.records ∧
      (outcome (enter call waiting clear) index = (.ok (), index') ∨
        ∃ e, outcome (enter call waiting clear) index = (.error e, index')) := by
  simp only [enter, outcome_bind, outcome_get, outcome_set]
  cases waiting index.failures with
  | none => exact ⟨{ index with calls := index.calls ++ [call] }, rfl, Or.inl rfl⟩
  | some e =>
      exact ⟨{ index with calls := index.calls ++ [call], failures := clear index.failures }, rfl,
        Or.inr ⟨e, rfl⟩⟩

theorem upsert_records (records : List Record) (index : Local) :
    (outcome (Local.upsert records) index).2.records = index.records ∨
      (outcome (Local.upsert records) index).2.records = insertAll index.records records := by
  obtain ⟨index₁, hsame, hok | ⟨e, herror⟩⟩ :=
    enter_cases (.upsert records.length) (·.upsert) ({ · with upsert := none }) index
  · rw [Local.upsert, outcome_bind_of_ok hok, ← hsame]
    exact Or.inr rfl
  · rw [Local.upsert, outcome_bind_of_error herror]
    exact Or.inl hsame

theorem range_records (request : Range) (index : Local) :
    (outcome (Local.range request) index).2.records = index.records := by
  obtain ⟨index₁, hsame, hok | ⟨e, herror⟩⟩ :=
    enter_cases (.range request.start) (·.range) ({ · with range := none }) index
  · rw [Local.range, outcome_bind_of_ok hok, ← hsame]
    split <;> rfl
  · rw [Local.range, outcome_bind_of_error herror]
    exact hsame

theorem query_records (request : Query) (index : Local) :
    (outcome (Local.query request) index).2.records = index.records := by
  obtain ⟨index₁, hsame, hok | ⟨e, herror⟩⟩ :=
    enter_cases (.query request.filter) (·.query) ({ · with query := none }) index
  · rw [Local.query, outcome_bind_of_ok hok, ← hsame]
    cases request.filter with
    | none => rfl
    | some filter =>
        dsimp only
        split <;> rfl
  · rw [Local.query, outcome_bind_of_error herror]
    exact hsame

/-- A query that succeeds gives the matches of its clauses. -/
theorem query_ok {request : Query} {filter : String} {clauses : List Filter.Clause}
    {found : List Match} {index index' : Local} (hfilter : request.filter = some filter)
    (hclauses : Filter.parse? filter = some clauses)
    (h : outcome (Local.query request) index = (.ok found, index')) :
    found = matchesOf index.records clauses request := by
  obtain ⟨index₁, hsame, hok | ⟨e, herror⟩⟩ :=
    enter_cases (.query request.filter) (·.query) ({ · with query := none }) index
  · rw [Local.query, outcome_bind_of_ok hok] at h
    simp only [hfilter, hclauses] at h
    cases h
    rw [hsame]
  · rw [Local.query, outcome_bind_of_error herror] at h
    cases h

theorem delete_onlyRemoved (ids : List String) (index : Local) :
    OnlyRemoved (fun r => r.id ∈ ids) index.records (outcome (Local.delete ids) index).2.records := by
  obtain ⟨index₁, hsame, hok | ⟨e, herror⟩⟩ :=
    enter_cases (.delete ids.length) (·.delete) ({ · with delete := none }) index
  · have hrecords : (outcome (Local.delete ids) index).2.records = (remove ids index₁.records).2 := by
      rw [Local.delete, outcome_bind_of_ok hok]
      rfl
    rw [hrecords, remove_records, hsame]
    refine ⟨fun r => !ids.contains r.id, rfl, fun r _ hgone => ?_⟩
    simpa using hgone
  · rw [Local.delete, outcome_bind_of_error herror, hsame]
    exact .refl _ _

/-- What matches is a record that the clauses hold for. -/
theorem of_mem_matchesOf {records : List Record} {clauses : List Filter.Clause} {request : Query}
    {found : Match} (h : found ∈ matchesOf records clauses request) :
    ∃ r ∈ records, Filter.holds clauses r.metadata = true ∧ found.id = r.id ∧
      (found.metadata = none ∨ found.metadata = some r.metadata) := by
  obtain ⟨r, hr, rfl⟩ := List.mem_map.mp (List.mem_mergeSort.mp (List.mem_of_mem_take h))
  obtain ⟨hmem, hholds⟩ := List.mem_filter.mp hr
  refine ⟨r, hmem, hholds, rfl, ?_⟩
  dsimp only
  split
  · exact Or.inr rfl
  · exact Or.inl rfl

/-! ### Deletions -/

theorem onlyRemoved_bind {α β : Type} {kind : Record → Prop} {step : Step Error Local α}
    {next : α → Step Error Local β} {index : Local}
    (hstep : OnlyRemoved kind index.records (outcome step index).2.records)
    (hnext : ∀ a index', outcome step index = (.ok a, index') →
      OnlyRemoved kind index'.records (outcome (next a) index').2.records) :
    OnlyRemoved kind index.records (outcome (step >>= next) index).2.records := by
  rw [outcome_bind]
  rcases h : outcome step index with ⟨e | a, index'⟩
  · rw [h] at hstep
    exact hstep
  · rw [h] at hstep
    exact hstep.trans (hnext a index' h)

/-- Batches of ids whose records are all of one kind take out no other records. -/
theorem deleteBatches_onlyRemoved {kind : Record → Prop} {batches : List (List String)} :
    ∀ {index : Local}, (∀ r ∈ index.records, r.id ∈ batches.flatten → kind r) →
      OnlyRemoved kind index.records
        (outcome (deleteBatches Local.index batches) index).2.records := by
  induction batches with
  | nil => exact fun _ => .refl _ _
  | cons batch rest ih =>
      intro index hkind
      have hfirst : OnlyRemoved kind index.records
          (outcome (Local.index.delete batch) index).2.records :=
        (delete_onlyRemoved batch index).mono fun r hr hid =>
          hkind r hr (List.mem_append_left _ hid)
      refine onlyRemoved_bind hfirst fun count index₁ hdelete => ?_
      rw [hdelete] at hfirst
      refine onlyRemoved_bind (ih fun r hr hid => ?_) fun _ _ _ => .refl _ _
      exact hkind r (hfirst.subset hr) (List.mem_append_right _ hid)

theorem deleteAll_onlyRemoved {kind : Record → Prop} {ids : List String} {index : Local}
    (hkind : ∀ r ∈ index.records, r.id ∈ ids → kind r) :
    OnlyRemoved kind index.records (outcome (deleteAll Local.index ids) index).2.records := by
  refine deleteBatches_onlyRemoved fun r hr hid => hkind r hr ?_
  rwa [flatten_batches (by decide)] at hid

/-- Listing leaves the records, and lists nothing that starts otherwise. -/
theorem listIds_records (start : String) (fuel : Nat) :
    ∀ (cursor : String) (index : Local),
      (outcome (listIds Local.index start fuel cursor) index).2.records = index.records ∧
        ∀ ids, (outcome (listIds Local.index start fuel cursor) index).1 = .ok (some ids) →
          ∀ id ∈ ids, start.toList.isPrefixOf id.toList = true := by
  induction fuel with
  | zero => exact fun _ _ => ⟨rfl, fun _ h => nomatch h⟩
  | succ fuel ih =>
      intro cursor index
      have hsame : (outcome (Local.index.range ⟨cursor, pageSize, some start⟩) index).2.records =
        index.records := range_records _ _
      rw [listIds, outcome_bind]
      rcases hpage : outcome (Local.index.range ⟨cursor, pageSize, some start⟩) index with
        ⟨e | page, index₁⟩
      · rw [hpage] at hsame
        exact ⟨hsame, fun _ h => nomatch h⟩
      · rw [hpage] at hsame
        have hstart : ∀ id ∈ page.ids.filter (fun id => start.toList.isPrefixOf id.toList),
            start.toList.isPrefixOf id.toList = true := fun id hid => (List.mem_filter.mp hid).2
        dsimp only
        split
        · refine ⟨hsame, fun ids h => ?_⟩
          cases h
          exact hstart
        · next next _ =>
            split
            · refine ⟨hsame, fun ids h => ?_⟩
              cases h
              exact hstart
            · obtain ⟨hlater, hids⟩ := ih next index₁
              rw [outcome_bind]
              rcases houtcome : outcome (listIds Local.index start fuel next) index₁ with
                ⟨e | later, index₂⟩
              · rw [houtcome] at hlater
                exact ⟨hlater.trans hsame, fun _ h => nomatch h⟩
              · rw [houtcome] at hlater hids
                refine ⟨hlater.trans hsame, fun ids h => ?_⟩
                cases later with
                | none => cases h
                | some later =>
                    cases h
                    intro id hid
                    rcases List.mem_append.mp hid with hmem | hmem
                    · exact hstart id hmem
                    · exact hids later rfl id hmem

/-- A deletion by the start of ids takes out nothing that starts otherwise. -/
theorem deleteByStart_onlyRemoved (fuel : Nat) (start : String) (index : Local) :
    OnlyRemoved (fun r => start.toList.isPrefixOf r.id.toList = true) index.records
      (outcome (deleteByStart Local.index fuel start) index).2.records := by
  obtain ⟨hsame, hids⟩ := listIds_records start fuel firstCursor index
  refine onlyRemoved_bind (hsame ▸ .refl _ _) fun listed index₁ hlist => ?_
  rw [hlist] at hids
  split
  · exact .refl _ _
  · exact .refl _ _
  · next ids _ =>
      rw [outcome_map]
      exact deleteAll_onlyRemoved fun r _ hid => hids ids rfl r.id hid

/-- A deletion by queries takes out nothing that the clauses do not hold for. -/
theorem deleteRounds_onlyRemoved {request : Query} {filter : String} {clauses : List Filter.Clause}
    (hfilter : request.filter = some filter) (hclauses : Filter.parse? filter = some clauses)
    (rounds : Nat) :
    ∀ {index : Local}, Sorted index.records →
      OnlyRemoved (fun r => Filter.holds clauses r.metadata = true) index.records
        (outcome (deleteRounds Local.index request rounds) index).2.records := by
  induction rounds with
  | zero => exact fun _ => .refl _ _
  | succ rounds ih =>
      intro index hsorted
      have hsame : (outcome (Local.index.query request) index).2.records = index.records :=
        query_records request index
      refine onlyRemoved_bind (hsame ▸ .refl _ _) fun found index₁ hquery => ?_
      rw [hquery] at hsame
      have hfound : found = matchesOf index.records clauses request :=
        query_ok hfilter hclauses hquery
      split
      · exact .refl _ _
      · have hremoved : OnlyRemoved (fun r => Filter.holds clauses r.metadata = true) index₁.records
            (outcome (deleteAll Local.index (found.map Match.id)) index₁).2.records := by
          refine deleteAll_onlyRemoved fun r hr hid => ?_
          obtain ⟨m, hm, hmid⟩ := List.mem_map.mp hid
          rw [hfound] at hm
          obtain ⟨r', hr', hholds, hid', _⟩ := of_mem_matchesOf hm
          have heq : r = r' :=
            eq_of_id_eq hsorted (hsame ▸ hr) hr' (hmid.symm.trans hid')
          exact heq ▸ hholds
        refine onlyRemoved_bind hremoved fun removed index₂ hdelete => ?_
        rw [hdelete] at hremoved
        split
        · exact .refl _ _
        · exact onlyRemoved_bind (ih (hremoved.sorted (hsame ▸ hsorted))) fun _ _ _ => .refl _ _

theorem noneIfEmpty_state (step : Step Error Local Nat) (index : Local) :
    (outcome (noneIfEmpty step) index).2 = (outcome step index).2 := by
  rw [noneIfEmpty, outcome_bind, outcome_attempt]
  dsimp only
  split <;> rfl

/-- A deletion whose scan does not fail, or only for want of records, leaves what the scan leaves. -/
theorem deleteChunks_of_scan {repo user : String} {fuel : Nat} {index : Local}
    (h : ∀ e, (outcome (deleteByStart Local.index fuel (Chunk.idStart user repo)) index).1 = .error e →
      e = .emptyIndex) :
    (outcome (deleteChunks Local.index fuel repo user) index).2 =
      (outcome (deleteByStart Local.index fuel (Chunk.idStart user repo)) index).2 := by
  rw [deleteChunks, outcome_bind, outcome_attempt]
  rcases houtcome : outcome (deleteByStart Local.index fuel (Chunk.idStart user repo)) index with
    ⟨(e | _ | count), index₁⟩
  · rw [houtcome] at h
    cases h e rfl
    rfl
  · rfl
  · rfl

/-- A deletion takes out nothing but what starts with the namespace or what the clauses hold for. -/
theorem deleteChunks_onlyRemoved {repo user : String} {clauses : List Filter.Clause} {index : Local}
    (hclauses : Filter.parse? (Filter.scope repo user) = some clauses) (hsorted : Sorted index.records)
    (fuel : Nat) :
    OnlyRemoved
      (fun r => (Chunk.idStart user repo).toList.isPrefixOf r.id.toList = true ∨
        Filter.holds clauses r.metadata = true) index.records
      (outcome (deleteChunks Local.index fuel repo user) index).2.records := by
  have hscan := deleteByStart_onlyRemoved fuel (Chunk.idStart user repo) index
  rw [deleteChunks, outcome_bind, outcome_attempt]
  rcases houtcome : outcome (deleteByStart Local.index fuel (Chunk.idStart user repo)) index with
    ⟨result, index₁⟩
  rw [houtcome] at hscan
  have hstart : OnlyRemoved
      (fun r => (Chunk.idStart user repo).toList.isPrefixOf r.id.toList = true ∨
        Filter.holds clauses r.metadata = true) index.records index₁.records :=
    hscan.mono fun r _ h => Or.inl h
  dsimp only
  split
  · exact hstart
  · exact hstart
  · exact hstart
  · rw [Action.during, outcome_mapError, outcome_mapError, noneIfEmpty_state]
    refine hstart.trans ?_
    exact (deleteRounds_onlyRemoved rfl hclauses maxRounds (hscan.sorted hsorted)).mono
      fun _ _ h => Or.inr h

end Local
end SourceIndex.VectorIndex
