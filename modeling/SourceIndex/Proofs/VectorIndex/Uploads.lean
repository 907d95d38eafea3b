import SourceIndex.Proofs.VectorIndex.Deletion
import SourceIndex.Proofs.VectorIndex.Removal

/-! What storing chunks asks of its index, whatever the index answers: the chunks go out in order, in batches of
bounded size, up to the first call that fails, and the result is a failure exactly if one does. In the index
within the process, which may be made to fail at any of these calls, a failure leaves the batches before it
stored and nothing else changed. -/

namespace SourceIndex.VectorIndex
open Step

namespace Exchange

/-- The records of a call to store. -/
def records? : Exchange → Option (List Record)
  | .upsert records _ => some records
  | _ => none

/-- The records that a call stored. -/
def stored : Exchange → List Record
  | .upsert records (.ok _) => records
  | _ => []

end Exchange

/-- The batches of records that some calls sent to be stored. -/
def uploadedIn (made : List Exchange) : List (List Record) := made.filterMap Exchange.records?

/-- The records that some calls stored. -/
def storedIn (made : List Exchange) : List Record := made.flatMap Exchange.stored

/-- What fails if an index refuses to store some chunks. -/
def notStored (count : Nat) (e : Error) : Failure :=
  (Failure.ofIndex e).during ("failed to upsert " ++ toString count ++ " chunks")

variable {σ : Type} (index : VectorIndex σ)

/-! ### The calls -/

/-- Some calls send batches of records, in order, up to the first that fails. -/
structure Stores (batches : List (List Record)) (result : Except Failure Unit) (made : List Exchange) : Prop where
  upserts : ∀ x ∈ made, ∃ records answer, x = .upsert records answer
  sent : uploadedIn made <+: batches
  complete : result = .ok () → (∀ x ∈ made, x.error? = none) ∧ uploadedIn made = batches
  refused : ∀ failure, result = .error failure → ∃ before records e,
    made = before ++ [.upsert records (.error e)] ∧ (∀ x ∈ before, x.error? = none) ∧
      failure = notStored records.length e

theorem stores_nil : Stores [] (.ok ()) [] where
  upserts := nofun
  sent := List.prefix_rfl
  complete _ := ⟨nofun, rfl⟩
  refused := nofun

/-- A call that fails is the last one. -/
theorem stores_failed (batch : List Record) (rest : List (List Record)) (e : Error) :
    Stores (batch :: rest) (.error (notStored batch.length e)) [.upsert batch (.error e)] where
  upserts x hx := ⟨batch, _, List.mem_singleton.mp hx⟩
  sent := List.prefix_append [batch] rest
  complete := nofun
  refused failure h := by
    cases h
    exact ⟨[], batch, e, rfl, nofun, rfl⟩

/-- After a call that stored its batch the others follow. -/
theorem Stores.cons {batches : List (List Record)} {result : Except Failure Unit} {made : List Exchange}
    (h : Stores batches result made) (batch : List Record) :
    Stores (batch :: batches) result (.upsert batch (.ok ()) :: made) where
  upserts x hx := by
    rcases List.mem_cons.mp hx with rfl | hx
    · exact ⟨batch, _, rfl⟩
    · exact h.upserts x hx
  sent := List.prefix_cons_inj batch |>.mpr h.sent
  complete hok := by
    obtain ⟨hnone, hsent⟩ := h.complete hok
    exact ⟨List.forall_mem_cons.mpr ⟨rfl, hnone⟩, congrArg (batch :: ·) hsent⟩
  refused failure herror := by
    obtain ⟨before, records, e, rfl, hbefore, rfl⟩ := h.refused failure herror
    exact ⟨_ :: before, records, e, rfl, List.forall_mem_cons.mpr ⟨rfl, hbefore⟩, rfl⟩

theorem upsertBatches_makes (batches : List (List Chunk)) :
    Makes (upsertBatches index batches) (upsertBatches index.observed batches)
      (Stores (batches.map (·.map recordOf))) := by
  induction batches with
  | nil => exact makes_pure stores_nil
  | cons batch rest ih =>
      have hcall := ((makes_call (index.upsert (batch.map recordOf)) (.upsert (batch.map recordOf))).mapError
        Failure.ofIndex).mapError (Failure.during ("failed to upsert " ++ toString batch.length ++ " chunks"))
      refine hcall.bind (fun _ => ih) ?_ ?_
      · rintro failure made ⟨value, ⟨answer, rfl, rfl⟩, herror⟩
        rcases answer with e | _
        · cases herror
          have hfailed := stores_failed (batch.map recordOf) (rest.map (·.map recordOf)) e
          rwa [List.length_map] at hfailed
        · cases herror
      · rintro ⟨⟩ made result later ⟨value, ⟨answer, rfl, rfl⟩, hok⟩ hlater
        rcases answer with e | ⟨⟩
        · cases hok
        · exact hlater.cons (batch.map recordOf)

/-- What storing chunks calls: it sends them in order, in batches, up to the first that fails. -/
structure Uploads (chunks : List Chunk) (result : Except Failure Unit) (made : List Exchange) : Prop where
  upserts : ∀ x ∈ made, ∃ records answer, x = .upsert records answer
  sizes : ∀ batch ∈ uploadedIn made, batch ≠ [] ∧ batch.length ≤ upsertBatch
  sent : (uploadedIn made).flatten <+: chunks.map recordOf
  /-- No call follows one that failed. -/
  ends : ∀ before x after, made = before ++ x :: after → x.error? ≠ none → after = []
  /-- The failure is that of the last call, and says how many chunks it was to store. -/
  refused : ∀ failure, result = .error failure ↔ ∃ before records e,
    made = before ++ [.upsert records (.error e)] ∧ failure = notStored records.length e
  complete : result = .ok () ↔
    (∀ x ∈ made, x.error? = none) ∧ (uploadedIn made).flatten = chunks.map recordOf
  idle : chunks = [] → made = []

section Stored

variable {batches : List (List Record)} {result : Except Failure Unit} {made : List Exchange}

theorem Stores.eq_ok (h : Stores batches result made) (hmade : ∀ x ∈ made, x.error? = none) :
    result = .ok () := by
  cases hresult : result with
  | ok => rfl
  | error failure =>
      obtain ⟨before, records, e, rfl, -, -⟩ := h.refused failure hresult
      exact nomatch hmade (.upsert records (.error e)) (by simp)

theorem Stores.ends (h : Stores batches result made) {before after : List Exchange} {x : Exchange}
    (hmade : made = before ++ x :: after) (hx : x.error? ≠ none) : after = [] := by
  cases hresult : result with
  | ok => exact absurd ((h.complete hresult).1 x (by simp [hmade])) hx
  | error failure =>
      obtain ⟨before', records, e, heq, hbefore', -⟩ := h.refused failure hresult
      rcases List.eq_nil_or_concat after with rfl | ⟨after, y, rfl⟩
      · rfl
      · rw [hmade, List.concat_eq_append, ← List.cons_append, ← List.append_assoc] at heq
        have hbefore := (List.append_inj' heq rfl).1
        exact absurd (hbefore' x (by simp [← hbefore])) hx

theorem Stores.refused_iff (h : Stores batches result made) (failure : Failure) :
    result = .error failure ↔ ∃ before records e,
      made = before ++ [.upsert records (.error e)] ∧ failure = notStored records.length e := by
  constructor
  · intro hresult
    obtain ⟨before, records, e, hmade, -, hfailure⟩ := h.refused failure hresult
    exact ⟨before, records, e, hmade, hfailure⟩
  · rintro ⟨before, records, e, rfl, rfl⟩
    cases hresult : result with
    | ok => exact nomatch (h.complete hresult).1 (.upsert records (.error e)) (by simp)
    | error failure =>
        obtain ⟨before', records', e', heq, -, rfl⟩ := h.refused failure hresult
        cases (List.append_inj' heq rfl).2
        rfl

end Stored

theorem Stores.uploads {chunks : List Chunk} {result : Except Failure Unit} {made : List Exchange}
    (h : Stores ((batches upsertBatch chunks).map (·.map recordOf)) result made) :
    Uploads chunks result made := by
  have hall : ((batches upsertBatch chunks).map (·.map recordOf)).flatten = chunks.map recordOf := by
    rw [← List.map_flatten, flatten_batches (by decide)]
  have hsizes : ∀ batch ∈ uploadedIn made, batch ≠ [] ∧ batch.length ≤ upsertBatch := by
    intro batch hbatch
    obtain ⟨part, hpart, rfl⟩ := List.mem_map.mp (h.sent.mem hbatch)
    obtain ⟨hne, hlength⟩ := size_of_mem_batches (by decide) hpart
    exact ⟨mt List.map_eq_nil_iff.mp hne, List.length_map recordOf ▸ hlength⟩
  refine ⟨h.upserts, hsizes, ?_, fun _ _ _ => h.ends, h.refused_iff, ⟨fun hok => ?_, fun hnone => ?_⟩, ?_⟩
  · rw [← hall]
    exact h.sent.flatten
  · obtain ⟨hnone, hsent⟩ := h.complete hok
    exact ⟨hnone, by rw [hsent, hall]⟩
  · exact h.eq_ok hnone.1
  · rintro rfl
    have hsent : uploadedIn made = [] := List.prefix_nil.mp h.sent
    rw [List.eq_nil_iff_forall_not_mem]
    intro x hx
    obtain ⟨records, answer, rfl⟩ := h.upserts x hx
    have hmem : records ∈ uploadedIn made := List.mem_filterMap.mpr ⟨_, hx, rfl⟩
    rw [hsent] at hmem
    cases hmem

/-! ### What is stored -/

theorem length_uploadedIn {made : List Exchange}
    (h : ∀ x ∈ made, ∃ records answer, x = .upsert records answer) :
    (uploadedIn made).length = made.length := by
  induction made with
  | nil => rfl
  | cons x made ih =>
      obtain ⟨⟨records, answer, rfl⟩, hrest⟩ := List.forall_mem_cons.mp h
      exact congrArg (· + 1) (ih hrest)

/-- Calls none of which failed stored all that they sent. -/
theorem storedIn_of_ok {made : List Exchange} (h : ∀ x ∈ made, ∃ records answer, x = .upsert records answer)
    (hnone : ∀ x ∈ made, x.error? = none) : storedIn made = (uploadedIn made).flatten := by
  induction made with
  | nil => rfl
  | cons x made ih =>
      obtain ⟨⟨records, answer, rfl⟩, hrest⟩ := List.forall_mem_cons.mp h
      obtain ⟨hx, hnone'⟩ := List.forall_mem_cons.mp hnone
      cases answer with
      | error e => cases hx
      | ok => exact congrArg (records ++ ·) (ih hrest hnone')

/-- After a failure of the last call the batches before it are stored. -/
theorem Stores.storedIn_of_error {batches : List (List Record)} {failure : Failure} {made : List Exchange}
    (h : Stores batches (.error failure) made) {k : Nat} (hk : made.length = k + 1) :
    storedIn made = (batches.take k).flatten := by
  obtain ⟨before, records, e, rfl, hnone, -⟩ := h.refused failure rfl
  have hbefore : ∀ x ∈ before, ∃ records answer, x = .upsert records answer := fun x hx =>
    h.upserts x (List.mem_append_left _ hx)
  have hlength : (uploadedIn before).length = k := by
    rw [length_uploadedIn hbefore]
    simpa using hk
  have hsent : uploadedIn before <+: batches := by
    refine List.IsPrefix.trans ?_ h.sent
    rw [uploadedIn, uploadedIn, List.filterMap_append]
    exact List.prefix_append _ _
  calc storedIn (before ++ [.upsert records (.error e)])
      = storedIn before := by simp [storedIn, Exchange.stored]
    _ = (uploadedIn before).flatten := storedIn_of_ok hbefore hnone
    _ = (batches.take k).flatten := by rw [List.prefix_iff_eq_take.mp hsent, hlength]

section View

variable {index} {view : σ → List Record}

/-- A call to store puts its records over those that a view shows, or fails and leaves these. -/
def StoresOver (view : σ → List Record) (index : VectorIndex σ) : Prop :=
  ∀ records s,
    (outcome (index.upsert records) s).1 = .ok () ∧
        view (outcome (index.upsert records) s).2 = Local.insertAll (view s) records ∨
      (∃ e, (outcome (index.upsert records) s).1 = .error e) ∧
        view (outcome (index.upsert records) s).2 = view s

/-- The view shows what was there at the start, with what the calls stored put over it. -/
def ShowsStored (view : σ → List Record) (start : List Record) (o : Observed σ) : Prop :=
  view o.state = Local.insertAll start (storedIn o.exchanges)

theorem ShowsStored.upsert (hstores : StoresOver view index) {start : List Record} {o : Observed σ}
    (h : ShowsStored view start o) (records : List Record) :
    ShowsStored view start (outcome (index.observed.upsert records) o).2 := by
  have hcall : outcome (index.observed.upsert records) o = ((outcome (index.upsert records) o.state).1,
      ⟨(outcome (index.upsert records) o.state).2,
        o.exchanges ++ [.upsert records (outcome (index.upsert records) o.state).1]⟩) := rfl
  rw [ShowsStored] at h
  rw [hcall, ShowsStored, storedIn, List.flatMap_append, Local.insertAll_append, ← storedIn, ← h]
  rcases hstores records o.state with ⟨hok, hview⟩ | ⟨⟨e, herror⟩, hview⟩
  · rw [hok, hview]
    simp [Exchange.stored]
  · rw [herror, hview]
    rfl

theorem ShowsStored.upsertBatches (hstores : StoresOver view index) {start : List Record}
    {o : Observed σ} (h : ShowsStored view start o) (batches : List (List Chunk)) :
    ShowsStored view start (outcome (upsertBatches index.observed batches) o).2 := by
  induction batches generalizing o with
  | nil => exact h
  | cons batch rest ih =>
      have hfirst := h.upsert hstores (batch.map recordOf)
      rw [VectorIndex.upsertBatches, outcome_bind, Action.during, outcome_mapError, outcome_mapError]
      rcases houtcome : outcome (index.observed.upsert (batch.map recordOf)) o with ⟨e | _, o'⟩
      · rw [houtcome] at hfirst
        exact hfirst
      · rw [houtcome] at hfirst
        exact ih hfirst

end View

namespace Local

/-- The index within the process, made to fail at any calls that store: `plan n` is the failure that is
injected after `n` calls, if there is one. -/
def interrupted (plan : Nat → Option Error) : VectorIndex Local :=
  { Local.index with
    upsert := fun records => do
      modify fun index =>
        match plan index.calls.length with
        | none => index
        | some e => { index with failures := { index.failures with upsert := some e } }
      Local.upsert records }

theorem storesOver_upsert (records : List Record) (index : Local) :
    (outcome (Local.upsert records) index).1 = .ok () ∧
        (outcome (Local.upsert records) index).2.records = insertAll index.records records ∨
      (∃ e, (outcome (Local.upsert records) index).1 = .error e) ∧
        (outcome (Local.upsert records) index).2.records = index.records := by
  obtain ⟨index₁, hsame, hok | ⟨e, herror⟩⟩ :=
    enter_cases (.upsert records.length) (·.upsert) ({ · with upsert := none }) index
  · rw [Local.upsert, outcome_bind_of_ok hok, ← hsame]
    exact Or.inl ⟨rfl, rfl⟩
  · rw [Local.upsert, outcome_bind_of_error herror]
    exact Or.inr ⟨⟨e, rfl⟩, hsame⟩

theorem storesOver_interrupted (plan : Nat → Option Error) :
    StoresOver Local.records (interrupted plan) := by
  intro records index
  have hinjected := storesOver_upsert records
    (match plan index.calls.length with
      | none => index
      | some e => { index with failures := { index.failures with upsert := some e } })
  cases hplan : plan index.calls.length with
  | none | some e =>
      simp only [hplan] at hinjected
      simpa only [interrupted, outcome_bind, outcome_modify, hplan] using hinjected

/-- The records `later` are the records `earlier` with those of chunks put over them: of an id the last chunk
counts, and without one what was there. -/
def Overlaid (earlier : List Record) (chunks : List Chunk) (later : List Record) : Prop :=
  later = insertAll earlier (chunks.map recordOf) ∧
    ∀ id, lookup id later = ((chunks.map recordOf).findRev? (·.id == id)).or (lookup id earlier)

theorem overlaid_insertAll (earlier : List Record) (chunks : List Chunk) :
    Overlaid earlier chunks (insertAll earlier (chunks.map recordOf)) :=
  ⟨rfl, fun id => lookup_insertAll id earlier (chunks.map recordOf)⟩

end Local

/-- Storing chunks sends them to the index in order, in batches, up to the first call that fails; and in the index
within the process all chunks are stored then, or those of the calls before the one that failed. -/
theorem uploads_inOrder {σ : Type} (index : VectorIndex σ) (s : σ) (plan : Nat → Option Error) (held : Local)
    (chunks : List Chunk) :
    (∃ made, Uploads chunks (outcome (upsertChunks index chunks) s).1 made ∧
      outcome (upsertChunks index.observed chunks) ⟨s, []⟩ =
        ((outcome (upsertChunks index chunks) s).1, ⟨(outcome (upsertChunks index chunks) s).2, made⟩)) ∧
    ∀ result later, outcome (upsertChunks (Local.interrupted plan).observed chunks) ⟨held, []⟩ = (result, later) →
      (result = .ok () → Local.Overlaid held.records chunks later.state.records) ∧
      ∀ failure k, result = .error failure → later.exchanges.length = k + 1 →
        Local.Overlaid held.records (chunks.take (upsertBatch * k)) later.state.records := by
  refine ⟨?_, fun result later hlater => ?_⟩
  · obtain ⟨made, hmade, hseen⟩ := upsertBatches_makes index (batches upsertBatch chunks) s []
    exact ⟨made, hmade.uploads, hseen⟩
  · have hview : ShowsStored Local.records held.records later := by
      have hstart : ShowsStored Local.records held.records ⟨held, []⟩ := rfl
      have h := hstart.upsertBatches (Local.storesOver_interrupted plan) (batches upsertBatch chunks)
      rwa [← upsertChunks, hlater] at h
    obtain ⟨made, hmade, hseen⟩ :=
      upsertBatches_makes (Local.interrupted plan) (batches upsertBatch chunks) held []
    rw [← upsertChunks, hlater, Prod.mk.injEq] at hseen
    obtain ⟨rfl, rfl⟩ := hseen
    rw [ShowsStored] at hview
    dsimp only [List.nil_append] at hview ⊢
    constructor
    · intro hok
      obtain ⟨hnone, hsent⟩ := hmade.complete hok
      rw [hview, storedIn_of_ok hmade.upserts hnone, hsent, ← List.map_flatten, flatten_batches (by decide)]
      exact Local.overlaid_insertAll _ _
    · intro failure k herror hk
      have herror' : Stores _ (.error failure) made := herror ▸ hmade
      rw [hview, herror'.storedIn_of_error hk, ← List.map_take, ← List.map_flatten,
        flatten_take_batches (by decide)]
      exact Local.overlaid_insertAll _ _

/-- A chunk under an id. -/
def chunkUnder (id : String) : Chunk where
  id
  data := "function f"
  metadata :=
    { repo := "acme/app", user := "u1", path := "src/a.ts", fileName := "a.ts", url := "", kind := .function,
      name := "f", startLine := 1, endLine := 1, content := "", doc := none, imports := [], exports := [],
      parent := none, calls := [] }

/-- One chunk more than a batch holds. -/
def overBatch : List Chunk := List.replicate upsertBatch (chunkUnder "a") ++ [chunkUnder "b"]

/-- The second call fails. -/
def failsSecond (n : Nat) : Option Error := if n = 1 then some .emptyIndex else none

/-- The outcome of storing these chunks in an empty index whose second call fails. -/
def cutUpload : Except Failure Unit × Observed Local :=
  outcome (upsertChunks (Local.interrupted failsSecond).observed overBatch) ⟨Local.empty, []⟩

theorem uploads_inOrder_overBatch : cutUpload.1 = .error (notStored 1 .emptyIndex) ∧
    Local.lookup "a" cutUpload.2.state.records = some (recordOf (chunkUnder "a")) ∧
    Local.lookup "b" cutUpload.2.state.records = none := by
  have hresult : cutUpload.1 = .error (notStored 1 .emptyIndex) := by decide +kernel
  have hlength : cutUpload.2.exchanges.length = 1 + 1 := by decide +kernel
  have hstored := (uploads_inOrder Local.index Local.empty failsSecond Local.empty overBatch).2
  obtain ⟨-, hlookup⟩ := (hstored cutUpload.1 cutUpload.2 rfl).2 _ 1 hresult hlength
  refine ⟨hresult, ?_, ?_⟩
  · rw [hlookup]
    rfl
  · rw [hlookup]
    rfl

end SourceIndex.VectorIndex
