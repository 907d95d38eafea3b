import Mathlib.Tactic.SplitIfs
import SourceIndex.Proofs.VectorIndex.Stored

/-! The matches of a query. Scores are ordered totally, and sorting by score keeps the order of ids among
equal scores; so the matches are the records that the clauses hold for, each once, the best first and
those of one score by id, and a smaller number of wanted matches only cuts this list. -/

namespace SourceIndex.VectorIndex

/-! ### Scores -/

namespace Score

/-- The numerator of a fraction with its sign. -/
def signed (negative : Bool) (num : Nat) : Int := if negative then -(num : Int) else num

theorem fraction_pos (mantissa : Nat) (exponent : Int) : 0 < (fraction mantissa exponent).2 := by
  rw [fraction]
  split
  · exact Nat.one_pos
  · exact Nat.pow_pos Nat.two_pos

theorem signed_mul (negative : Bool) (n m : Nat) :
    (if negative then -((n * m : Nat) : Int) else (n * m : Nat)) = signed negative n * m := by
  cases negative with
  | true =>
      change -((n * m : Nat) : Int) = -(n : Int) * m
      rw [Int.natCast_mul, Int.neg_mul]
  | false => exact Int.natCast_mul n m

/-- Finite scores are compared like fractions, by multiplying crosswise. -/
theorem le_finite (negative negative' : Bool) (mantissa mantissa' : Nat) (exponent exponent' : Int) :
    (finite negative mantissa exponent).le (finite negative' mantissa' exponent') = true ↔
      signed negative (fraction mantissa exponent).1 * (fraction mantissa' exponent').2 ≤
        signed negative' (fraction mantissa' exponent').1 * (fraction mantissa exponent).2 := by
  rw [le, decide_eq_true_eq]
  simp only [signed_mul]

theorem crosswise_trans {a b c : Int} {x y z : Nat} (hy : 0 < y) (hab : a * y ≤ b * x)
    (hbc : b * z ≤ c * y) : a * z ≤ c * x := by
  have hleft := Int.mul_le_mul_of_nonneg_right hab (Int.natCast_nonneg z)
  have hright := Int.mul_le_mul_of_nonneg_right hbc (Int.natCast_nonneg x)
  have hchain : a * z * y ≤ c * x * y := by
    calc a * z * y = a * y * z := Int.mul_right_comm a z y
      _ ≤ b * x * z := hleft
      _ = b * z * x := Int.mul_right_comm b x z
      _ ≤ c * y * x := hright
      _ = c * x * y := Int.mul_right_comm c y x
  exact Int.le_of_mul_le_mul_right hchain (Int.natCast_pos.mpr hy)

theorem le_trans (a b c : Score) (hab : a.le b = true) (hbc : b.le c = true) : a.le c = true := by
  cases a with
  | infinite negative =>
      cases negative with
      | true => cases c <;> rfl
      | false =>
          -- nothing but infinity is above infinity
          have hb : b = infinite false := by
            cases b with
            | finite => cases hab
            | infinite negative => cases negative <;> first | rfl | cases hab
          rwa [← hb]
  | finite negative mantissa exponent =>
      cases b with
      | infinite negative' =>
          have hb : negative' = false := by simpa [le] using hab
          subst hb
          cases c with
          | finite => cases hbc
          | infinite negative'' => cases negative'' <;> first | rfl | cases hbc
      | finite negative' mantissa' exponent' =>
          cases c with
          | infinite negative'' => exact hbc
          | finite negative'' mantissa'' exponent'' =>
              rw [le_finite] at hab hbc ⊢
              exact crosswise_trans (fraction_pos mantissa' exponent') hab hbc

theorem le_total (a b : Score) : (a.le b || b.le a) = true := by
  cases a with
  | infinite negative => cases b <;> cases negative <;> simp [le]
  | finite negative mantissa exponent =>
      cases b with
      | infinite negative' => cases negative' <;> rfl
      | finite negative' mantissa' exponent' =>
          rw [Bool.or_eq_true, le_finite, le_finite]
          exact Int.le_total _ _

end Score

/-! ### Sorting that keeps the order of equals -/

section Sorting

variable {α : Type} {le : α → α → Bool} (htrans : ∀ a b c, le a b = true → le b c = true → le a c = true)
  (htotal : ∀ a b, (le a b || le b a) = true)
include htrans htotal

/-- Items that are equal to one another stay in their order. -/
theorem filter_mergeSort_equal (items : List α) (a : α) :
    (items.mergeSort le).filter (fun b => le a b && le b a) =
      items.filter fun b => le a b && le b a := by
  have hequal : (items.filter fun b => le a b && le b a).Pairwise fun b c => le b c = true := by
    refine List.pairwise_of_forall_mem_list fun b hb c hc => ?_
    have hb' := (List.mem_filter.mp hb).2
    have hc' := (List.mem_filter.mp hc).2
    rw [Bool.and_eq_true] at hb' hc'
    exact htrans b a c hb'.2 hc'.1
  have hsub := (List.sublist_mergeSort htrans htotal hequal List.filter_sublist).filter
    fun b => le a b && le b a
  rw [List.filter_filter] at hsub
  simp only [Bool.and_self] at hsub
  have hperm := (List.mergeSort_perm items le).filter fun b => le a b && le b a
  exact (hsub.eq_of_length hperm.length_eq.symm).symm

/-- A list in some order, sorted, is in the order of the sort, and equal items are in the first order. -/
theorem pairwise_mergeSort_stable {lt : α → α → Prop} {items : List α} (h : items.Pairwise lt) :
    (items.mergeSort le).Pairwise fun a b => le a b = true ∧ (le b a = true → lt a b) := by
  have hsorted := List.pairwise_mergeSort htrans htotal items
  rw [List.pairwise_iff_forall_sublist] at h hsorted ⊢
  intro a b hab
  refine ⟨hsorted hab, fun hba => h ?_⟩
  have hself : le a a = true := by simpa using htotal a a
  have hpair := hab.filter fun x => le a x && le x a
  rw [filter_mergeSort_equal htrans htotal] at hpair
  simp only [List.filter_cons, List.filter_nil, hself, hsorted hab, hba, Bool.and_self, if_true] at hpair
  exact hpair.trans List.filter_sublist

end Sorting

/-! ### Matches -/

namespace Local
open Text

/-- The match of a record that is found. -/
def matchOf (request : Query) (r : Record) : Match where
  id := r.id
  score := overlap (words (lowercase request.data.toList)) r.data
  metadata := if request.includeMetadata then some r.metadata else none

/-- The matches of all records that the clauses hold for, best first and otherwise by id. -/
def ranking (records : List Record) (clauses : List Filter.Clause) (request : Query) : List Match :=
  ((records.filter fun r => Filter.holds clauses r.metadata).map (matchOf request)).mergeSort
    fun a b => b.score.le a.score

variable {records : List Record} {clauses : List Filter.Clause} {request : Query}

theorem matchesOf_eq_take :
    matchesOf records clauses request = (ranking records clauses request).take request.topK := rfl

theorem ranking_perm :
    (ranking records clauses request).Perm
      ((records.filter fun r => Filter.holds clauses r.metadata).map (matchOf request)) :=
  List.mergeSort_perm _ _

theorem length_ranking :
    (ranking records clauses request).length =
      (records.filter fun r => Filter.holds clauses r.metadata).length := by
  rw [ranking_perm.length_eq, List.length_map]

theorem mem_ranking {found : Match} :
    found ∈ ranking records clauses request ↔
      ∃ r ∈ records, Filter.holds clauses r.metadata = true ∧ matchOf request r = found := by
  rw [ranking_perm.mem_iff, List.mem_map]
  simp only [List.mem_filter, and_assoc]

/-- The best match comes first, and of matches of one score that of the smaller id. -/
theorem ranking_pairwise (hsorted : Sorted records) :
    (ranking records clauses request).Pairwise fun a b =>
      b.score.le a.score = true ∧ (a.score.le b.score = true → a.id < b.id) := by
  have hids : ((records.filter fun r => Filter.holds clauses r.metadata).map
      (matchOf request)).Pairwise fun a b => a.id < b.id :=
    List.pairwise_map.mpr (hsorted.filter _)
  exact pairwise_mergeSort_stable (fun a b c hab hbc => Score.le_trans c.score b.score a.score hbc hab)
    (fun a b => Score.le_total b.score a.score) hids

theorem ranking_ids_nodup (hsorted : Sorted records) :
    ((ranking records clauses request).map Match.id).Nodup := by
  have hperm := (ranking_perm : (ranking records clauses request).Perm _).map Match.id
  rw [List.map_map] at hperm
  exact hperm.nodup_iff.mpr (Sorted.filter hsorted _).ids_nodup

end Local
end SourceIndex.VectorIndex
