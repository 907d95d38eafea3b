import SourceIndex.Proofs.Step
import SourceIndex.Proofs.VectorIndex.Batches
import SourceIndex.Proofs.VectorIndex.Stored

/-! The index within the process while no failure waits for it. Its calls then succeed, storing overlays
the records in the order of the chunks, and the pages of a range list all ids with the wanted beginning:
the cursor of a page is read back as the offset at which the next one starts. So deleting everything in
a namespace removes the records whose id starts as wanted, and counts them. -/

namespace SourceIndex.VectorIndex
open Step Text

/-! ### Cursors -/

theorem digitsValue_toDigits (n : Nat) : digitsValue (Nat.toDigits 10 n) = n := by
  have h := Nat.ofDigitChars_ten_toDigits (n := n)
  rw [Nat.ofDigitChars_eq_foldl] at h
  simpa only [digitsValue, Nat.mul_comm] using h

/-- The text of a number within the bound is read back as the number. -/
theorem parseNat?_toDigits {bound n : Nat} (h : n ≤ bound) :
    parseNat? bound (Nat.toDigits 10 n) = some n := by
  have hdigit : ∀ c ∈ Nat.toDigits 10 n, c.isDigit = true := fun c hc =>
    Nat.isDigit_of_mem_toDigits (by decide) (by decide) hc
  have hplus : stripStart? ['+'] (Nat.toDigits 10 n) = none := by
    rw [stripStart?]
    cases hd : Nat.toDigits 10 n with
    | nil => rfl
    | cons c rest =>
        have hc : c ≠ '+' := by
          rintro rfl
          exact absurd (hdigit '+' (hd ▸ List.mem_cons_self)) (by decide)
        simp [List.isPrefixOf, Ne.symm hc]
  have hempty : (Nat.toDigits 10 n).isEmpty = false := by
    simp
  have hall : (Nat.toDigits 10 n).all Char.isDigit = true := List.all_eq_true.mpr hdigit
  rw [parseNat?, hplus, Option.getD_none, hempty, hall, digitsValue_toDigits]
  simp [h]

theorem toList_toString (n : Nat) : (toString n).toList = Nat.toDigits 10 n := by
  rw [Nat.toString_eq_ofList_toDigits, String.toList_ofList]

theorem toString_isEmpty (n : Nat) : (toString n).isEmpty = false := by
  rw [← Bool.not_eq_true, String.isEmpty_iff, ← String.toList_inj, toList_toString]
  exact Nat.toDigits_ne_nil

namespace Local

/-! ### Calls that succeed -/

/-- No failure waits for any call. -/
def Quiet (index : Local) : Prop := index.failures = .none

/-- The index after further calls that left it with the given records. -/
def after (index : Local) (calls : List Call) (records : List Record) : Local :=
  ⟨records, index.calls ++ calls, index.failures⟩

@[simp] theorem after_records (index : Local) (calls : List Call) (records : List Record) :
    (index.after calls records).records = records := rfl

theorem Quiet.after {index : Local} (h : index.Quiet) (calls : List Call) (records : List Record) :
    (index.after calls records).Quiet := h

@[simp] theorem after_after (index : Local) (calls calls' : List Call) (records records' : List Record) :
    (index.after calls records).after calls' records' = index.after (calls ++ calls') records' := by
  simp [Local.after, List.append_assoc]

theorem after_nil (index : Local) : index.after [] index.records = index := by
  simp [Local.after]

/-! ### Pages -/

/-- The id of a record starts as given. -/
def startsWith (start : String) (r : Record) : Bool := start.toList.isPrefixOf r.id.toList

theorem idsFrom_eq (records : List Record) (start : String) :
    idsFrom records (some start) = (records.filter (startsWith start)).map Record.id := by
  rw [idsFrom, List.filter_map]
  rfl

theorem start_of_mem_idsFrom {records : List Record} {start id : String}
    (h : id ∈ idsFrom records (some start)) : start.toList.isPrefixOf id.toList = true :=
  (List.mem_filter.mp h).2

theorem pageAt_of_lt {ids : List String} {offset limit : Nat} (h : offset + limit < ids.length) :
    pageAt ids offset limit =
      ⟨(ids.drop offset).take limit, some (toString (offset + limit))⟩ := by
  have hstop : min (offset + limit) ids.length = offset + limit := by omega
  rw [pageAt, hstop, List.drop_take, if_pos h, Nat.add_sub_cancel_left]

theorem pageAt_of_le {ids : List String} {offset limit : Nat} (h : ids.length ≤ offset + limit) :
    pageAt ids offset limit = ⟨ids.drop offset, none⟩ := by
  have hstop : min (offset + limit) ids.length = ids.length := by omega
  rw [pageAt, hstop, List.take_length, if_neg (Nat.lt_irrefl _)]

/-! ### What the calls do -/

section Quiet

variable {index : Local} (hquiet : index.Quiet)
include hquiet

theorem outcome_upsert (records : List Record) :
    outcome (Local.upsert records) index =
      (.ok (), index.after [.upsert records.length] (insertAll index.records records)) := by
  have hwaits : index.failures.upsert = none := by rw [hquiet]; rfl
  simp [Local.upsert, enter, outcome_bind, hwaits, Local.after]

theorem outcome_delete (ids : List String) :
    outcome (Local.delete ids) index =
      (.ok (remove ids index.records).1,
        index.after [.delete ids.length] (remove ids index.records).2) := by
  have hwaits : index.failures.delete = none := by rw [hquiet]; rfl
  simp [Local.delete, enter, outcome_bind, hwaits, Local.after]

theorem outcome_range (offset limit : Nat) (start : Option String) (h : offset ≤ maxWord64) :
    outcome (Local.range ⟨toString offset, limit, start⟩) index =
      (.ok (pageAt (idsFrom index.records start) offset limit),
        index.after [.range start] index.records) := by
  have hwaits : index.failures.range = none := by rw [hquiet]; rfl
  simp [Local.range, enter, outcome_bind, hwaits, Local.after, parseNat?_toDigits h]

theorem outcome_query {request : Query} {filter : String} {clauses : List Filter.Clause}
    (hfilter : request.filter = some filter) (hclauses : Filter.parse? filter = some clauses) :
    outcome (Local.query request) index =
      (.ok (matchesOf index.records clauses request),
        index.after [.query (some filter)] index.records) := by
  have hwaits : index.failures.query = none := by rw [hquiet]; rfl
  simp [Local.query, enter, outcome_bind, hwaits, Local.after, hfilter, hclauses]

theorem outcome_upsertBatches (batches : List (List Chunk)) :
    ∃ calls, outcome (upsertBatches Local.index batches) index =
      (.ok (), index.after calls (insertAll index.records (batches.flatten.map recordOf))) := by
  induction batches generalizing index with
  | nil => exact ⟨[], by rw [upsertBatches, outcome_pure]; exact congrArg _ (after_nil index).symm⟩
  | cons batch rest ih =>
      obtain ⟨calls, hrest⟩ := ih (hquiet.after [.upsert (batch.map recordOf).length]
        (insertAll index.records (batch.map recordOf)))
      refine ⟨.upsert (batch.map recordOf).length :: calls, ?_⟩
      have hfirst : outcome (Local.index.upsert (batch.map recordOf)) index = _ :=
        outcome_upsert hquiet (batch.map recordOf)
      rw [upsertBatches, outcome_bind_of_ok (outcome_during_of_ok (outcome_mapError_of_ok hfirst)),
        hrest, after_after, after_records, List.flatten_cons, List.map_append, insertAll_append]
      rfl

/-- Storing chunks overlays the records with theirs. -/
theorem outcome_upsertChunks (chunks : List Chunk) :
    ∃ calls, outcome (upsertChunks Local.index chunks) index =
      (.ok (), index.after calls (insertAll index.records (chunks.map recordOf))) := by
  obtain ⟨calls, h⟩ := outcome_upsertBatches hquiet (batches upsertBatch chunks)
  rw [flatten_batches (by decide)] at h
  exact ⟨calls, h⟩

/-- The pages from an offset on list all further ids, if there are no more pages than `fuel`. -/
theorem outcome_listIds (start : String) (fuel offset : Nat)
    (hsize : (idsFrom index.records (some start)).length ≤ maxWord64)
    (hoffset : offset ≤ (idsFrom index.records (some start)).length) :
    ∃ calls, outcome (listIds Local.index start fuel (toString offset)) index =
      (.ok (if 0 < fuel ∧ (idsFrom index.records (some start)).length ≤ offset + fuel * pageSize then
          some ((idsFrom index.records (some start)).drop offset) else none),
        index.after calls index.records) := by
  induction fuel generalizing index offset with
  | zero =>
      refine ⟨[], ?_⟩
      rw [listIds, outcome_pure, if_neg (fun h => Nat.lt_irrefl 0 h.1), after_nil]
  | succ fuel ih =>
      generalize hids : idsFrom index.records (some start) = ids at hsize hoffset ⊢
      have hpage : outcome (Local.index.range ⟨toString offset, pageSize, some start⟩) index = _ :=
        outcome_range hquiet offset pageSize (some start) (Nat.le_trans hoffset hsize)
      have hall : ∀ part : List String, (∀ id ∈ part, id ∈ ids) →
          part.filter (fun id => start.toList.isPrefixOf id.toList) = part := fun part hpart =>
        List.filter_eq_self.mpr fun id hid => start_of_mem_idsFrom (hids.symm ▸ hpart id hid)
      rw [hids] at hpage
      rw [listIds, outcome_bind_of_ok hpage]
      by_cases hmore : offset + pageSize < ids.length
      · -- a full page, after which the listing goes on at the next offset
        obtain ⟨calls, hlater⟩ := ih (hquiet.after [.range (some start)] index.records)
          (offset + pageSize) (by rw [after_records, hids]; exact hsize)
          (by rw [after_records, hids]; omega)
        rw [after_records, hids, after_after] at hlater
        refine ⟨[.range (some start)] ++ calls, ?_⟩
        simp only [pageAt_of_lt hmore, toString_isEmpty, Bool.false_eq_true, if_false]
        rw [outcome_bind_of_ok hlater, outcome_pure,
          hall _ fun id hid => List.mem_of_mem_drop (List.mem_of_mem_take hid)]
        have hfuel : (0 < fuel ∧ ids.length ≤ offset + pageSize + fuel * pageSize) ↔
            (0 < fuel + 1 ∧ ids.length ≤ offset + (fuel + 1) * pageSize) := by
          rw [Nat.add_mul, Nat.one_mul]
          rcases Nat.eq_zero_or_pos fuel with rfl | hpos <;> omega
        by_cases hf : 0 < fuel ∧ ids.length ≤ offset + pageSize + fuel * pageSize
        · rw [if_pos hf, if_pos (hfuel.mp hf), Option.map_some, ← List.drop_drop,
            List.take_append_drop]
        · rw [if_neg hf, if_neg (fun h => hf (hfuel.mpr h)), Option.map_none]
      · refine ⟨[.range (some start)], ?_⟩
        simp only [pageAt_of_le (Nat.le_of_not_lt hmore)]
        rw [outcome_pure, hall _ fun id hid => List.mem_of_mem_drop hid, if_pos]
        refine ⟨Nat.succ_pos fuel, ?_⟩
        rw [Nat.add_mul, Nat.one_mul]
        omega

/-- Deleting batches of ids removes their records; the count and the rest make up all records. -/
theorem outcome_deleteBatches (hsorted : Sorted index.records) (batches : List (List String)) :
    ∃ calls count rest, outcome (deleteBatches Local.index batches) index =
        (.ok count, index.after calls rest) ∧
      rest = index.records.filter (fun r => !batches.flatten.contains r.id) ∧
      count + rest.length = index.records.length := by
  induction batches generalizing index with
  | nil =>
      refine ⟨[], 0, index.records, ?_, (List.filter_eq_self.mpr fun _ _ => rfl).symm, Nat.zero_add _⟩
      rw [after_nil]
      rfl
  | cons batch batches ih =>
      have hfirst : outcome (Local.index.delete batch) index = _ := outcome_delete hquiet batch
      have hcount := remove_count hsorted batch
      rw [remove_records] at hfirst hcount
      obtain ⟨calls, count, rest, hlater, hrest, hsum⟩ := ih
        (hquiet.after [.delete batch.length] (index.records.filter fun r => !batch.contains r.id))
        (hsorted.filter _)
      rw [after_records] at hrest hsum
      refine ⟨[.delete batch.length] ++ calls,
        (remove batch index.records).1 + count, rest, ?_, ?_, ?_⟩
      · rw [deleteBatches, outcome_bind_of_ok hfirst, outcome_bind_of_ok hlater, outcome_pure,
          after_after]
      · rw [hrest, List.filter_filter]
        refine List.filter_congr fun r _ => ?_
        simp [Bool.and_comm]
      · omega

/-- Deleting ids removes and counts the records that have one of them. -/
theorem outcome_deleteAll (hsorted : Sorted index.records) (ids : List String) :
    ∃ calls, outcome (deleteAll Local.index ids) index =
      (.ok (index.records.filter fun r => ids.contains r.id).length,
        index.after calls (index.records.filter fun r => !ids.contains r.id)) := by
  obtain ⟨calls, count, rest, hdelete, hrest, hcount⟩ :=
    outcome_deleteBatches hquiet hsorted (batches deleteBatch ids)
  rw [flatten_batches (by decide)] at hrest
  have hsplit := length_filter_add (fun r => ids.contains r.id) index.records
  have hnumber : count = (index.records.filter fun r => ids.contains r.id).length := by
    rw [hrest] at hcount
    omega
  exact ⟨calls, by rw [deleteAll, hdelete, hnumber, hrest]⟩

/-- The records whose id starts as given fit on the pages that a deletion follows. -/
def Listable (fuel : Nat) (start : String) (records : List Record) : Prop :=
  0 < fuel ∧ (records.filter (startsWith start)).length ≤ fuel * pageSize

instance (fuel : Nat) (start : String) (records : List Record) :
    Decidable (Listable fuel start records) := inferInstanceAs (Decidable (_ ∧ _))

/-- A deletion by the start of ids removes and counts the records whose id starts as given, if they
fit on the pages that it follows, and nothing otherwise. -/
theorem outcome_deleteByStart (hsorted : Sorted index.records) {start : String}
    (hsize : (index.records.filter (startsWith start)).length ≤ maxWord64) (fuel : Nat) :
    ∃ calls, outcome (deleteByStart Local.index fuel start) index =
      if Listable fuel start index.records then
        (.ok (some (index.records.filter (startsWith start)).length),
          index.after calls (index.records.filter fun r => !startsWith start r))
      else (.ok none, index.after calls index.records) := by
  have hlength : (idsFrom index.records (some start)).length =
      (index.records.filter (startsWith start)).length := by
    rw [idsFrom_eq, List.length_map]
  obtain ⟨calls, hlist⟩ := outcome_listIds hquiet start fuel 0 (hlength ▸ hsize) (Nat.zero_le _)
  rw [Nat.zero_add, hlength, List.drop_zero] at hlist
  have hfirst : outcome (listIds Local.index start fuel firstCursor) index =
      (.ok (if Listable fuel start index.records then some (idsFrom index.records (some start))
        else none), index.after calls index.records) := hlist
  by_cases hfuel : Listable fuel start index.records
  · rw [if_pos hfuel] at hfirst
    simp only [if_pos hfuel]
    rw [deleteByStart, outcome_bind_of_ok hfirst]
    have hmem : ∀ r ∈ index.records,
        (idsFrom index.records (some start)).contains r.id = startsWith start r := by
      intro r hr
      rw [Bool.eq_iff_iff, List.contains_iff_mem]
      refine ⟨start_of_mem_idsFrom, fun hstart => ?_⟩
      rw [idsFrom_eq]
      exact List.mem_map_of_mem (List.mem_filter.mpr ⟨hr, hstart⟩)
    cases hids : idsFrom index.records (some start) with
    | nil =>
        rw [idsFrom_eq, List.map_eq_nil_iff] at hids
        refine ⟨calls, ?_⟩
        rw [hids, filter_not_of_filter_nil hids]
        rfl
    | cons id rest =>
        obtain ⟨more, hdelete⟩ :=
          outcome_deleteAll (hquiet.after calls index.records) hsorted (id :: rest)
        rw [after_records, ← hids, List.filter_congr hmem,
          List.filter_congr fun r hr => congrArg not (hmem r hr), hids] at hdelete
        refine ⟨calls ++ more, ?_⟩
        rw [outcome_map, hdelete, after_after]
        rfl
  · rw [if_neg hfuel] at hfirst
    refine ⟨calls, ?_⟩
    rw [if_neg hfuel, deleteByStart, outcome_bind_of_ok hfirst]
    rfl

/-- Without a failure a deletion goes by the start of ids alone; it has no end if the pages have none
within its limit. -/
theorem outcome_deleteChunks (hsorted : Sorted index.records) {repo user : String}
    (hsize : (index.records.filter (startsWith (Chunk.idStart user repo))).length ≤ maxWord64)
    (fuel : Nat) :
    ∃ calls, outcome (deleteChunks Local.index fuel repo user) index =
      if Listable fuel (Chunk.idStart user repo) index.records then
        (.ok (index.records.filter (startsWith (Chunk.idStart user repo))).length,
          index.after calls (index.records.filter fun r => !startsWith (Chunk.idStart user repo) r))
      else (.error ⟨[], .endless⟩, index.after calls index.records) := by
  obtain ⟨calls, hdelete⟩ := outcome_deleteByStart hquiet hsorted hsize fuel
  refine ⟨calls, ?_⟩
  rw [deleteChunks, outcome_bind, outcome_attempt, hdelete]
  split_ifs <;> rfl

/-- A page for every record of the namespace, and one more, is limit enough. -/
theorem outcome_deleteChunks_of_lt (hsorted : Sorted index.records) {repo user : String}
    (hsize : (index.records.filter (startsWith (Chunk.idStart user repo))).length ≤ maxWord64) {fuel : Nat}
    (hfuel : (index.records.filter (startsWith (Chunk.idStart user repo))).length < fuel) :
    ∃ calls, outcome (deleteChunks Local.index fuel repo user) index =
      (.ok (index.records.filter (startsWith (Chunk.idStart user repo))).length,
        index.after calls (index.records.filter fun r => !startsWith (Chunk.idStart user repo) r)) := by
  obtain ⟨calls, houtcome⟩ := outcome_deleteChunks hquiet hsorted hsize fuel
  have hlistable : Listable fuel (Chunk.idStart user repo) index.records := by
    refine ⟨by omega, ?_⟩
    rw [pageSize]
    omega
  exact ⟨calls, by rw [houtcome, if_pos hlistable]⟩

end Quiet

end Local
end SourceIndex.VectorIndex
