import SourceIndex.VectorIndex.Chunks

/-! Batches of a list. Joined they give the list back, none is empty and none exceeds the size; the
running totals of their lengths are the multiples of the size, and the length of the list at last. -/

namespace SourceIndex.VectorIndex

variable {α : Type}

theorem flatten_batchesUpTo {size : Nat} (hsize : 0 < size) :
    ∀ (fuel : Nat) (items : List α), items.length ≤ fuel →
      (batchesUpTo size fuel items).flatten = items
  | 0, [], _ => rfl
  | 0, _ :: _, h => absurd h (by simp)
  | _ + 1, [], _ => rfl
  | fuel + 1, a :: rest, h => by
      have hdrop : ((a :: rest).drop size).length ≤ fuel := by
        rw [List.length_drop, List.length_cons]
        rw [List.length_cons] at h
        omega
      rw [batchesUpTo, List.flatten_cons, flatten_batchesUpTo hsize fuel _ hdrop,
        List.take_append_drop]
      exact List.cons_ne_nil a rest

@[simp] theorem flatten_batches {size : Nat} (hsize : 0 < size) (items : List α) :
    (batches size items).flatten = items :=
  flatten_batchesUpTo hsize items.length items (Nat.le_refl _)

theorem size_of_mem_batchesUpTo {size : Nat} (hsize : 0 < size) {batch : List α} :
    ∀ {fuel : Nat} {items : List α}, batch ∈ batchesUpTo size fuel items →
      batch ≠ [] ∧ batch.length ≤ size
  | 0, _, h => nomatch h
  | _ + 1, [], h => nomatch h
  | fuel + 1, a :: rest, h => by
      rw [batchesUpTo] at h
      · rcases List.mem_cons.mp h with rfl | h
        · refine ⟨?_, List.length_take_le size _⟩
          rw [← List.length_pos_iff, List.length_take, List.length_cons]
          omega
        · exact size_of_mem_batchesUpTo hsize h
      · exact List.cons_ne_nil a rest

theorem size_of_mem_batches {size : Nat} (hsize : 0 < size) {items batch : List α}
    (h : batch ∈ batches size items) : batch ≠ [] ∧ batch.length ≤ size :=
  size_of_mem_batchesUpTo hsize h

theorem flatten_take_batchesUpTo {size : Nat} (hsize : 0 < size) :
    ∀ (fuel k : Nat) (items : List α), items.length ≤ fuel →
      ((batchesUpTo size fuel items).take k).flatten = items.take (size * k)
  | _, 0, items, _ => by rw [Nat.mul_zero]; rfl
  | 0, _ + 1, [], _ => by rw [List.take_nil]; rfl
  | 0, _ + 1, _ :: _, h => absurd h (by simp)
  | _ + 1, _ + 1, [], _ => by rw [List.take_nil]; rfl
  | fuel + 1, k + 1, a :: rest, h => by
      have hdrop : ((a :: rest).drop size).length ≤ fuel := by
        rw [List.length_drop, List.length_cons]
        rw [List.length_cons] at h
        omega
      rw [batchesUpTo, List.take_succ_cons, List.flatten_cons,
        flatten_take_batchesUpTo hsize fuel k _ hdrop, Nat.mul_succ, Nat.add_comm, List.take_add]
      exact List.cons_ne_nil a rest

/-- The first batches hold the first items; only the last batch of all may fall short of the size. -/
theorem flatten_take_batches {size : Nat} (hsize : 0 < size) (k : Nat) (items : List α) :
    ((batches size items).take k).flatten = items.take (size * k) :=
  flatten_take_batchesUpTo hsize items.length k items (Nat.le_refl _)

/-- The running totals of the lengths of some lists, after `done`. -/
def totals : Nat → List (List α) → List Nat
  | _, [] => []
  | done, batch :: rest => (done + batch.length) :: totals (done + batch.length) rest

/-- The number of batches of a size that a number of items takes. -/
def batchCount (size items : Nat) : Nat := (items + (size - 1)) / size

theorem batchCount_zero {size : Nat} (hsize : 0 < size) : batchCount size 0 = 0 := by
  rw [batchCount, Nat.zero_add]
  exact Nat.div_eq_of_lt (by omega)

theorem batchCount_pos {size items : Nat} (hsize : 0 < size) (hitems : 0 < items) :
    batchCount size items = batchCount size (items - size) + 1 := by
  rw [batchCount, batchCount]
  by_cases h : size ≤ items
  · rw [show items + (size - 1) = items - size + (size - 1) + size by omega,
      Nat.add_div_right _ hsize]
  · rw [show items - size = 0 by omega, Nat.zero_add, Nat.div_eq_of_lt (show size - 1 < size by omega),
      show items + (size - 1) = items - 1 + size by omega, Nat.add_div_right _ hsize,
      Nat.div_eq_of_lt (show items - 1 < size by omega)]

theorem totals_batchesUpTo {size : Nat} (hsize : 0 < size) :
    ∀ (fuel done : Nat) (items : List α), items.length ≤ fuel →
      totals done (batchesUpTo size fuel items) =
        (List.range (batchCount size items.length)).map fun i =>
          done + min ((i + 1) * size) items.length
  | 0, _, [], _ => by rw [List.length_nil, batchCount_zero hsize]; rfl
  | 0, _, _ :: _, h => absurd h (by simp)
  | _ + 1, _, [], _ => by rw [List.length_nil, batchCount_zero hsize]; rfl
  | fuel + 1, done, a :: rest, h => by
      have hpos : 0 < (a :: rest).length := Nat.succ_pos _
      have hdrop : ((a :: rest).drop size).length ≤ fuel := by
        rw [List.length_drop]
        omega
      rw [batchesUpTo, totals, totals_batchesUpTo hsize fuel _ _ hdrop, batchCount_pos hsize hpos,
        List.range_succ_eq_map, List.map_cons, List.map_map, List.length_drop, List.length_take]
      · congr 1
        · omega
        refine List.map_congr_left fun i _ => ?_
        simp only [Function.comp_apply, Nat.succ_eq_add_one, Nat.add_mul]
        omega
      · exact List.cons_ne_nil a rest

theorem totals_batches {size : Nat} (hsize : 0 < size) (items : List α) :
    totals 0 (batches size items) =
      (List.range (batchCount size items.length)).map fun i =>
        min ((i + 1) * size) items.length := by
  rw [batches, totals_batchesUpTo hsize _ _ _ (Nat.le_refl _)]
  simp only [Nat.zero_add]

end SourceIndex.VectorIndex
