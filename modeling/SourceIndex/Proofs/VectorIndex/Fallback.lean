import SourceIndex.Proofs.VectorIndex.Isolation
import SourceIndex.Proofs.VectorIndex.Listing
import SourceIndex.Proofs.VectorIndex.Ranking

/-! The two ways of deleting a repository agree. A deletion lists the ids of the namespace, and goes by
queries with the filter when the listing fails. Each round of queries removes as many records of the
repository as a query finds and no other, so within the number of rounds all of them are gone; and as
ids and metadata of built chunks say the same, they are the records that the listing would have removed. -/

namespace SourceIndex.VectorIndex
open Step VectorIndex.Filter Chunk.Metadata

namespace Local

/-! ### One round -/

section Round

variable {records : List Record} {clauses : List Clause} {request : Query}

/-- The ids that a round of a deletion removes. -/
def foundIds (records : List Record) (clauses : List Clause) (request : Query) : List String :=
  (matchesOf records clauses request).map Match.id

theorem foundIds_nodup (hsorted : Sorted records) : (foundIds records clauses request).Nodup := by
  rw [foundIds, matchesOf_eq_take, List.map_take]
  exact (ranking_ids_nodup hsorted).sublist (List.take_sublist _ _)

theorem of_mem_foundIds {id : String} (h : id ∈ foundIds records clauses request) :
    ∃ r ∈ records, holds clauses r.metadata = true ∧ r.id = id := by
  obtain ⟨found, hfound, rfl⟩ := List.mem_map.mp h
  rw [matchesOf_eq_take] at hfound
  obtain ⟨r, hr, hholds, rfl⟩ := mem_ranking.mp (List.mem_of_mem_take hfound)
  exact ⟨r, hr, hholds, rfl⟩

/-- Whose id is found is a record that the clauses hold for. -/
theorem holds_of_contains (hsorted : Sorted records) {r : Record} (hr : r ∈ records)
    (h : (foundIds records clauses request).contains r.id = true) : holds clauses r.metadata = true := by
  obtain ⟨r', hr', hholds, hid⟩ := of_mem_foundIds (List.contains_iff_mem.mp h)
  rwa [eq_of_id_eq hsorted hr hr' hid.symm]

variable (clauses request)

theorem length_foundIds :
    (foundIds records clauses request).length =
      min request.topK (records.filter fun r => holds clauses r.metadata).length := by
  rw [foundIds, List.length_map, matchesOf_eq_take, List.length_take, length_ranking]

/-- A round removes as many records as it finds ids. -/
theorem length_filter_foundIds (hsorted : Sorted records) :
    (records.filter fun r => (foundIds records clauses request).contains r.id).length =
      (foundIds records clauses request).length := by
  have hnodup : ((records.filter fun r =>
      (foundIds records clauses request).contains r.id).map Record.id).Nodup :=
    (hsorted.filter _).ids_nodup
  have hmem : ∀ id, id ∈ (records.filter fun r =>
      (foundIds records clauses request).contains r.id).map Record.id ↔
      id ∈ foundIds records clauses request := by
    intro id
    constructor
    · intro h
      obtain ⟨r, hr, rfl⟩ := List.mem_map.mp h
      exact List.contains_iff_mem.mp (List.mem_filter.mp hr).2
    · intro h
      obtain ⟨r, hr, _, rfl⟩ := of_mem_foundIds h
      exact List.mem_map_of_mem (List.mem_filter.mpr ⟨hr, List.contains_iff_mem.mpr h⟩)
  have hperm := (List.perm_ext_iff_of_nodup hnodup (foundIds_nodup hsorted)).mpr hmem
  rw [← hperm.length_eq, List.length_map]

/-- What a round leaves of the records that the clauses hold for. -/
theorem length_filter_round (hsorted : Sorted records) :
    (foundIds records clauses request).length +
        ((records.filter fun r => !(foundIds records clauses request).contains r.id).filter
          fun r => holds clauses r.metadata).length =
      (records.filter fun r => holds clauses r.metadata).length := by
  have hsplit := length_filter_add (fun r => (foundIds records clauses request).contains r.id)
    (records.filter fun r => holds clauses r.metadata)
  have hgone : (records.filter fun r => holds clauses r.metadata).filter
      (fun r => (foundIds records clauses request).contains r.id) =
      records.filter fun r => (foundIds records clauses request).contains r.id := by
    rw [List.filter_filter]
    refine List.filter_congr fun r hr => ?_
    rw [Bool.and_eq_left_iff_imp]
    exact holds_of_contains hsorted hr
  have hleft : (records.filter fun r => holds clauses r.metadata).filter
      (fun r => !(foundIds records clauses request).contains r.id) =
      (records.filter fun r => !(foundIds records clauses request).contains r.id).filter
        fun r => holds clauses r.metadata := by
    rw [List.filter_filter, List.filter_filter]
    exact List.filter_congr fun r _ => Bool.and_comm _ _
  rwa [hgone, hleft, length_filter_foundIds clauses request hsorted] at hsplit

/-- A round leaves the other records. -/
theorem filter_not_round (hsorted : Sorted records) :
    (records.filter fun r => !(foundIds records clauses request).contains r.id).filter
        (fun r => !holds clauses r.metadata) =
      records.filter fun r => !holds clauses r.metadata := by
  rw [List.filter_filter]
  refine List.filter_congr fun r hr => ?_
  rw [Bool.and_eq_left_iff_imp]
  intro hother
  cases hcontains : (foundIds records clauses request).contains r.id with
  | false => rfl
  | true =>
      rw [holds_of_contains hsorted hr hcontains] at hother
      cases hother

end Round

/-! ### All rounds -/

/-- With enough rounds for the records that the clauses hold for, all of them are removed and counted. -/
theorem outcome_deleteRounds {request : Query} {filter : String} {clauses : List Clause}
    (hfilter : request.filter = some filter) (hclauses : parse? filter = some clauses)
    (htopK : 0 < request.topK) (rounds : Nat) {index : Local} (hquiet : index.Quiet)
    (hsorted : Sorted index.records)
    (hsize : (index.records.filter fun r => holds clauses r.metadata).length ≤ rounds * request.topK) :
    ∃ calls, outcome (deleteRounds Local.index request rounds) index =
      (.ok (index.records.filter fun r => holds clauses r.metadata).length,
        index.after calls (index.records.filter fun r => !holds clauses r.metadata)) := by
  induction rounds generalizing index with
  | zero =>
      have hnone : (index.records.filter fun r => holds clauses r.metadata) = [] := by
        rwa [Nat.zero_mul, Nat.le_zero, List.length_eq_zero_iff] at hsize
      refine ⟨[], ?_⟩
      rw [deleteRounds, outcome_pure, hnone, filter_not_of_filter_nil hnone, after_nil]
      rfl
  | succ rounds ih =>
      have hquery : outcome (Local.index.query request) index = _ :=
        outcome_query hquiet hfilter hclauses
      have hlength : (foundIds index.records clauses request).length = _ :=
        length_foundIds clauses request
      rw [deleteRounds, outcome_bind_of_ok hquery]
      by_cases hnone : (index.records.filter fun r => holds clauses r.metadata) = []
      · -- a query that finds nothing ends the deletion
        have hfound : matchesOf index.records clauses request = [] := by
          rwa [hnone, List.length_nil, Nat.min_zero, List.length_eq_zero_iff, foundIds,
            List.map_eq_nil_iff] at hlength
        refine ⟨[.query (some filter)], ?_⟩
        rw [hfound, hnone, filter_not_of_filter_nil hnone]
        rfl
      · have hpos : 0 < (index.records.filter fun r => holds clauses r.metadata).length :=
          List.length_pos_iff.mpr hnone
        have hround := length_filter_round clauses request hsorted
        have hothers := filter_not_round clauses request hsorted
        have hcount := length_filter_foundIds clauses request hsorted
        have hfound : (matchesOf index.records clauses request).isEmpty = false := by
          rw [List.isEmpty_eq_false_iff, ← List.length_pos_iff]
          rw [foundIds, List.length_map] at hlength
          omega
        obtain ⟨calls, hdelete⟩ := outcome_deleteAll
          (hquiet.after [.query (some filter)] index.records) hsorted
          (foundIds index.records clauses request)
        rw [after_records, hcount, after_after] at hdelete
        obtain ⟨calls', hlater⟩ := ih (hquiet.after ([.query (some filter)] ++ calls)
          (index.records.filter fun r => !(foundIds index.records clauses request).contains r.id))
          (hsorted.filter _) (by rw [after_records]; rw [Nat.succ_mul] at hsize; omega)
        rw [after_after, after_records, hothers] at hlater
        have hremoved : (foundIds index.records clauses request).length ≠ 0 := by omega
        have hids : (matchesOf index.records clauses request).map Match.id =
            foundIds index.records clauses request := rfl
        refine ⟨[.query (some filter)] ++ calls ++ calls', ?_⟩
        simp only [hfound, hids, Bool.false_eq_true, if_false]
        rw [outcome_bind_of_ok hdelete, if_neg hremoved, outcome_bind_of_ok hlater, outcome_pure, hround]

/-! ### A listing that fails -/

/-- The index with an error that waits for the next range. -/
def failingRange (index : Local) (e : Error) : Local :=
  { index with failures := { index.failures with range := some e } }

section Failing

variable {index : Local} (hquiet : index.Quiet)
include hquiet

/-- A deletion by the start of ids ends with the failure of its first range, after which no failure
waits any more. -/
theorem outcome_deleteByStart_failingRange (e : Error) {fuel : Nat} (hfuel : 0 < fuel) (start : String) :
    outcome (deleteByStart Local.index fuel start) (index.failingRange e) =
      (.error e, index.after [.range (some start)] index.records) := by
  obtain ⟨fuel, rfl⟩ := Nat.exists_eq_add_one.mpr hfuel
  have hclear : ({ index.failures with range := none } : Failures) = index.failures := by
    rw [hquiet]
    rfl
  have hrange : outcome (Local.index.range ⟨firstCursor, pageSize, some start⟩) (index.failingRange e) =
      (.error e, index.after [.range (some start)] index.records) := by
    change outcome (Local.range ⟨firstCursor, pageSize, some start⟩) (index.failingRange e) = _
    simp [Local.range, enter, outcome_bind, failingRange, Local.after, hclear]
  rw [deleteByStart, outcome_bind_of_error]
  rw [listIds, outcome_bind_of_error hrange]

/-- When the listing fails otherwise than for want of records, the deletion removes and counts what its
filter holds for, up to as many records as its rounds can find. -/
theorem outcome_deleteChunks_failingRange (hsorted : Sorted index.records) {repo user : String}
    {clauses : List Clause} (hclauses : parse? (scope repo user) = some clauses)
    (hsize : (index.records.filter fun r => holds clauses r.metadata).length ≤ maxRounds * deleteTopK)
    {e : Error} (he : e ≠ .emptyIndex) {fuel : Nat} (hfuel : 0 < fuel) :
    ∃ calls, outcome (deleteChunks Local.index fuel repo user) (index.failingRange e) =
      (.ok (index.records.filter fun r => holds clauses r.metadata).length,
        index.after calls (index.records.filter fun r => !holds clauses r.metadata)) := by
  have hfail := outcome_deleteByStart_failingRange hquiet e hfuel (Chunk.idStart user repo)
  have hfilter : (deletionQuery repo user).filter = some (scope repo user) := rfl
  obtain ⟨calls, hrounds⟩ := outcome_deleteRounds hfilter hclauses (Nat.succ_pos _) maxRounds
    (hquiet.after [.range (some (Chunk.idStart user repo))] index.records) hsorted hsize
  rw [after_records, after_after] at hrounds
  refine ⟨[.range (some (Chunk.idStart user repo))] ++ calls, ?_⟩
  rw [deleteChunks, outcome_bind, outcome_attempt, hfail]
  cases e with
  | emptyIndex => exact absurd rfl he
  | api _ _ | transport _ | decode _ =>
      refine outcome_during_of_ok (outcome_mapError_of_ok ?_)
      rw [noneIfEmpty, outcome_bind, outcome_attempt, hrounds]
      rfl

end Failing

end Local

/-! ### Both ways -/

instance (repo user : String) (r : Record) : Decidable (Carries repo user r) :=
  inferInstanceAs (Decidable (_ ∧ _))

theorem BuiltFor.carries_iff {context : Chunk.Context} {r : Record} (h : BuiltFor context r)
    {repo user : String} : Carries repo user r ↔ context.repo = repo ∧ context.user = user := by
  constructor
  · intro hcarries
    exact ⟨Option.some.inj (h.carries.1.symm.trans hcarries.1),
      Option.some.inj (h.carries.2.symm.trans hcarries.2)⟩
  · rintro ⟨rfl, rfl⟩
    exact h.carries

/-- The id of a stored record starts as those of a repository and a user exactly if its metadata names
them. -/
theorem Stored.startsWith_eq {records : List Record} (h : Stored records) {repo user : String}
    (hunshared : Unshared repo user records) {r : Record} (hr : r ∈ records) :
    Local.startsWith (Chunk.idStart user repo) r = decide (Carries repo user r) := by
  rw [Bool.eq_iff_iff, decide_eq_true_iff]
  refine ⟨h.carries_of_start hunshared hr, fun hcarries => ?_⟩
  obtain ⟨context, path, entities, chunk, hchunk, rfl⟩ := h.built r hr
  obtain ⟨rfl, rfl⟩ := BuiltFor.carries_iff ⟨path, entities, chunk, hchunk, rfl⟩ |>.mp hcarries
  obtain ⟨entity, _, rfl⟩ := Chunk.mem_build hchunk
  exact (Chunk.idStart_isPrefixOf_idFor _ _ _ _ _ _ _).mpr rfl

theorem holds_scopeClauses_eq (repo user : String) (r : Record) :
    holds (scopeClauses repo user) r.metadata = decide (Carries repo user r) := by
  rw [Bool.eq_iff_iff, decide_eq_true_iff, holds_scopeClauses]

/-- Deleting a repository of at most so many records comes to the same by the listing and, when that
fails, by the queries: the same count, and the same records left, none of them the repository's. -/
theorem deletions_agree {index : Local} (hstored : Stored index.records) (hquiet : index.Quiet)
    {repo user : String} (hprintable : ∀ c ∈ repo.toList ++ user.toList, Text.isControl c = false)
    (hunshared : Unshared repo user index.records)
    (hsize : (index.records.filter fun r => Carries repo user r).length ≤ 100000)
    {e : Error} (he : e ≠ .emptyIndex) {fuel : Nat} (hfuel : maxRounds ≤ fuel) :
    ∃ count rest calls calls',
      outcome (deleteChunks Local.index fuel repo user) index =
        (.ok count, index.after calls rest) ∧
      outcome (deleteChunks Local.index fuel repo user) (index.failingRange e) =
        (.ok count, index.after calls' rest) ∧
      count = (index.records.filter fun r => Carries repo user r).length ∧
      rest = index.records.filter (fun r => !Carries repo user r) ∧
      ∀ r ∈ rest, ∀ context, BuiltFor context r → ¬(context.repo = repo ∧ context.user = user) := by
  have hclauses := parse?_scope_of_printable hprintable
  have hstart : ∀ r ∈ index.records,
      Local.startsWith (Chunk.idStart user repo) r = decide (Carries repo user r) :=
    fun r hr => hstored.startsWith_eq hunshared hr
  have hcount := List.filter_congr hstart
  have hrest := List.filter_congr fun r hr => congrArg not (hstart r hr)
  have hpages : (100000 : Nat) ≤ fuel * pageSize := Nat.mul_le_mul_right pageSize hfuel
  -- the pages that the listing follows hold all ids of the namespace
  have hlistable : Local.Listable fuel (Chunk.idStart user repo) index.records := by
    refine ⟨Nat.lt_of_lt_of_le (by decide) hfuel, ?_⟩
    rw [hcount]
    exact Nat.le_trans hsize hpages
  have hoffsets : (index.records.filter (Local.startsWith (Chunk.idStart user repo))).length ≤
      Text.maxWord64 := by
    rw [hcount]
    exact Nat.le_trans hsize (by decide)
  obtain ⟨calls, hlisted⟩ := Local.outcome_deleteChunks hquiet hstored.sorted hoffsets fuel
  rw [if_pos hlistable, hcount, hrest] at hlisted
  -- and the rounds that follow its failure find all records of the filter
  have hrounds : (index.records.filter fun r => holds (scopeClauses repo user) r.metadata).length ≤
      maxRounds * deleteTopK := by
    simp only [holds_scopeClauses_eq]
    exact hsize
  obtain ⟨calls', hqueried⟩ := Local.outcome_deleteChunks_failingRange hquiet hstored.sorted hclauses
    hrounds he hlistable.1
  simp only [holds_scopeClauses_eq] at hqueried
  refine ⟨_, _, calls, calls', hlisted, hqueried, rfl, rfl, ?_⟩
  intro r hr context hbuilt hsame
  have hother := (List.mem_filter.mp hr).2
  rw [decide_eq_true (hbuilt.carries_iff.mpr hsame)] at hother
  cases hother

theorem deletions_agree_twoFunctions :
    ∃ calls calls',
      outcome (deleteChunks Local.index 100 "acme/app" "u1") twoFunctions =
        (.ok 1, twoFunctions.after calls [functionRecord "u2" "acme/app"]) ∧
      outcome (deleteChunks Local.index 100 "acme/app" "u1")
          (twoFunctions.failingRange (.transport "connection reset")) =
        (.ok 1, twoFunctions.after calls' [functionRecord "u2" "acme/app"]) := by
  have hother : ¬Carries "acme/app" "u1" (functionRecord "u2" "acme/app") := by
    rw [(functionRecord_builtFor "u2" "acme/app").carries_iff]
    decide
  have hown : Carries "acme/app" "u1" (functionRecord "u1" "acme/app") :=
    (functionRecord_builtFor "u1" "acme/app").carries
  have hcount : (twoFunctions.records.filter fun r => Carries "acme/app" "u1" r).length = 1 := by
    simp [twoFunctions, hother, hown]
  have hrest : twoFunctions.records.filter (fun r => !Carries "acme/app" "u1" r) =
      [functionRecord "u2" "acme/app"] := by
    simp [twoFunctions, hother, hown]
  obtain ⟨_, _, calls, calls', hlisted, hqueried, rfl, rfl, _⟩ :=
    deletions_agree stored_twoFunctions rfl (isControl_of_all (by decide)) unshared_twoFunctions
      (by rw [hcount]; decide) (e := .transport "connection reset") (by decide) (Nat.le_refl maxRounds)
  rw [hcount, hrest] at hlisted hqueried
  exact ⟨calls, calls', hlisted, hqueried⟩

end SourceIndex.VectorIndex
