import SourceIndex.Proofs.VectorIndex.Deletion
import SourceIndex.VectorIndex.Recorded

/-! The count that a deletion returns. A failed call makes the deletion start over by queries or end as one of
an empty index, and either way it counts from zero: what its earlier calls removed is forgotten. So the count is
what the calls removed since the last one that failed, which is less than what they removed together if the index
says that it is empty only after something was removed. -/

namespace SourceIndex.VectorIndex
open Step

/-- How many records some calls removed since the last one that failed. -/
def removedSince (made : List Exchange) : Nat :=
  made.foldl (fun count x => if x.error?.isSome then 0 else count + x.removed) 0

@[simp] theorem removedSince_nil : removedSince [] = 0 := rfl

theorem removedSince_append_singleton (made : List Exchange) (x : Exchange) :
    removedSince (made ++ [x]) = if x.error?.isSome then 0 else removedSince made + x.removed := by
  rw [removedSince, List.foldl_append]
  rfl

theorem removedSince_append_of_ok {made later : List Exchange} (h : ∀ x ∈ later, x.error? = none) :
    removedSince (made ++ later) = removedSince made + removedIn later := by
  induction later using List.reverseRecOn with
  | nil => rw [List.append_nil, removedIn_nil, Nat.add_zero]
  | append_singleton later x ih =>
      have hx : x.error? = none := h x (by simp)
      rw [← List.append_assoc, removedSince_append_singleton, hx, ih fun y hy => h y (by simp [hy])]
      simp [Nat.add_assoc]

theorem removedSince_of_stops_error {α : Type} {e : Error} {made : List Exchange}
    (h : Stops (.error e : Except Error α) made) : removedSince made = 0 := by
  obtain ⟨before, x, rfl, -, hx⟩ := h
  rw [removedSince_append_singleton, hx]
  rfl

/-- Every call that failed came before anything was removed. -/
def FailsFirst (made : List Exchange) : Prop :=
  ∀ before x after, made = before ++ x :: after → x.error? ≠ none → removedIn before = 0

/-- What was removed since the last failure is all that was removed exactly if the failures came first. -/
theorem removedSince_eq_removedIn_iff (made : List Exchange) :
    removedSince made = removedIn made ↔ FailsFirst made := by
  induction made using List.reverseRecOn with
  | nil => simp [FailsFirst]
  | append_singleton made x ih =>
      rw [removedSince_append_singleton, removedIn_append, removedIn_cons, removedIn_nil, Nat.add_zero]
      by_cases hx : x.error? = none
      · -- a call that went well adds the same to both counts
        have hfails : FailsFirst (made ++ [x]) ↔ FailsFirst made := by
          constructor
          · rintro h before y after rfl hy
            exact h before y (after ++ [x]) (by simp) hy
          · intro h before y after heq hy
            rcases List.eq_nil_or_concat after with rfl | ⟨after, z, rfl⟩
            · obtain ⟨rfl, hxy⟩ := List.append_inj' heq rfl
              cases hxy
              exact absurd hx hy
            · refine h before y after ?_ hy
              rw [List.concat_eq_append, ← List.cons_append, ← List.append_assoc] at heq
              exact (List.append_inj' heq rfl).1
        rw [hfails, ← ih, hx]
        simp
      · -- after a failure nothing counts any more
        have hsome : x.error?.isSome = true := Option.isSome_iff_ne_none.mpr hx
        rw [if_pos hsome, Exchange.removed_of_failed hx, Nat.add_zero]
        constructor
        · intro hzero before y after heq _
          have hprefix : before <+: made := by
            rcases List.eq_nil_or_concat after with rfl | ⟨after, z, rfl⟩
            · rw [(List.append_inj' heq rfl).1]
            · rw [List.concat_eq_append, ← List.cons_append, ← List.append_assoc] at heq
              rw [(List.append_inj' heq rfl).1]
              exact List.prefix_append before (y :: after)
          obtain ⟨rest, rfl⟩ := hprefix
          rw [removedIn_append] at hzero
          omega
        · intro h
          exact (h made x [] rfl hx).symm

/-! ### What deletions return -/

theorem Sends.counts {batches : List (List String)} {value : Except Error Nat} {made : List Exchange}
    (h : Sends batches value made) {count : Nat} (hcount : value = .ok count) : count = removedIn made :=
  (h.complete count hcount).2

/-- The count of a deletion without anything removed before it. -/
theorem count_of_deletionResult {repo : String} {value : Except Error Nat} {before made : List Exchange}
    (hbefore : removedSince before = 0) (hstops : Stops value made)
    (hcounts : ∀ count, value = .ok count → count = removedIn made) {count : Nat}
    (h : deletionResult repo value = .ok count) : count = removedSince (before ++ made) := by
  rcases value with (_ | _ | _ | _) | total
  · cases h
    obtain ⟨earlier, x, rfl, -, hx⟩ := hstops
    rw [← List.append_assoc, removedSince_append_singleton, hx]
    rfl
  · cases h
  · cases h
  · cases h
  · cases h
    rw [removedSince_append_of_ok hstops, hbefore, Nat.zero_add]
    exact hcounts count rfl

theorem Phase.removedIn_scan {start : String} {fuel : Nat} {phase : Except Error (Option Nat)}
    {scan sends : List Exchange} (h : Phase start fuel phase scan sends) : removedIn scan = 0 := by
  refine removedIn_eq_zero fun x hx => ?_
  obtain ⟨cursor, answer, rfl⟩ := h.ranges x hx
  rfl

theorem count_of_follows {repo start : String} {fuel : Nat} {phase : Except Error (Option Nat)}
    {scan sends rest : List Exchange} (hphase : Phase start fuel phase scan sends)
    {result : Except Failure Nat} (hfollows : Follows repo phase result rest) {count : Nat}
    (h : result = .ok count) : count = removedSince (scan ++ sends ++ rest) := by
  cases hfollows with
  | counted total =>
      cases h
      have hok : ∀ x ∈ scan ++ sends, x.error? = none := hphase.stops
      have hsince : removedSince ([] ++ (scan ++ sends)) = _ := removedSince_append_of_ok hok
      rw [List.nil_append, removedSince_nil, Nat.zero_add, removedIn_append, hphase.removedIn_scan,
        Nat.zero_add] at hsince
      rw [List.append_nil, hsince]
      exact (hphase.complete count rfl).2.1
  | endless => cases h
  | empty =>
      cases h
      rw [List.append_nil, removedSince_of_stops_error hphase.stops]
  | rounds he hrounds =>
      exact count_of_deletionResult (removedSince_of_stops_error hphase.stops) hrounds.stops hrounds.counts h

/-- What a deletion returns, of given ids or of a repository, is what its calls removed since the last one that
failed; and so it is all that they removed exactly if every call that failed came before anything was removed. -/
theorem count_removedSince {σ : Type} (index : VectorIndex σ) (s : σ) (repo : String) :
    (∀ ids count o, outcome (deleteChunkIds index.observed repo ids) ⟨s, []⟩ = (.ok count, o) →
      count = removedSince o.exchanges ∧ (count = removedIn o.exchanges ↔ FailsFirst o.exchanges)) ∧
    ∀ user fuel count o, outcome (deleteChunks index.observed fuel repo user) ⟨s, []⟩ = (.ok count, o) →
      count = removedSince o.exchanges ∧ (count = removedIn o.exchanges ↔ FailsFirst o.exchanges) := by
  have hexact : ∀ {count : Nat} {made : List Exchange}, count = removedSince made →
      count = removedSince made ∧ (count = removedIn made ↔ FailsFirst made) := by
    rintro count made rfl
    exact ⟨rfl, removedSince_eq_removedIn_iff made⟩
  constructor
  · intro ids count o h
    obtain ⟨made, ⟨value, hsends, hresult⟩, houtcome⟩ := deleteChunkIds_makes index repo ids s []
    rw [h, Prod.mk.injEq] at houtcome
    obtain ⟨hok, rfl⟩ := houtcome
    rw [← hok] at hresult
    exact hexact (count_of_deletionResult removedSince_nil hsends.stops (fun _ => hsends.counts) hresult.symm)
  · intro user fuel count o h
    obtain ⟨made, ⟨phase, scan, sends, rest, rfl, hphase, hfollows⟩, houtcome⟩ :=
      deleteChunks_makes index fuel repo user s []
    rw [h, Prod.mk.injEq] at houtcome
    obtain ⟨hok, rfl⟩ := houtcome
    exact hexact (count_of_follows hphase hfollows hok.symm)

/-- An index that cannot list ids, finds one record, removes it, and then says that it is empty. -/
def lastRecord : Recorded where
  upserts := []
  queries := [.ok [⟨"a", .zero, none⟩], .error .emptyIndex]
  deletes := [.ok 1]
  ranges := [.error (.api 400 "range not supported")]
  requests := []

/-- The outcome of deleting a repository there. -/
def lastDeletion : Except Failure Nat × Observed Recorded :=
  outcome (deleteChunks Recorded.index.observed 1 "acme/app" "u1") ⟨lastRecord, []⟩

theorem count_removedSince_lastRecord :
    removedSince lastDeletion.2.exchanges = 0 ∧ ¬FailsFirst lastDeletion.2.exchanges := by
  have hresult : lastDeletion.1 = .ok 0 := by decide +kernel
  have hremoved : removedIn lastDeletion.2.exchanges = 1 := by decide +kernel
  obtain ⟨hsince, hexact⟩ := (count_removedSince Recorded.index lastRecord "acme/app").2 "u1" 1 0
    lastDeletion.2 (Prod.ext hresult rfl)
  refine ⟨hsince.symm, fun hfails => ?_⟩
  have hequal := hexact.mpr hfails
  omega

/-- The deletion that removed the last record returns that it removed none. -/
theorem count_lost_lastRecord : lastDeletion.1 = .ok 0 ∧ removedIn lastDeletion.2.exchanges = 1 := by
  decide +kernel

end SourceIndex.VectorIndex
