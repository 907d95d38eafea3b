import SourceIndex.Proofs.Entity.Blocks
import SourceIndex.Proofs.Entity.Members

/-! Depths inside a block. The search for the end of a block and the depths before its lines are counted apart, over
the same lines. They agree: as long as the block goes on its depth is positive from the first opening brace on, and
not positive before it, and the line that ends the block either brings an opened block back to depth zero or ends a
statement without braces. -/

namespace SourceIndex.Braces
open Text

/-- Some line opens a brace that counts. -/
def Opens (ls : List Chars) : Prop := ∃ line ∈ ls, 0 < (count line).opens

/-- How far lines change the depth together. -/
def netOf (ls : List Chars) : Int := ls.foldr (fun line depth => (count line).net + depth) 0

@[simp] theorem not_opens_nil : ¬ Opens [] := by simp [Opens]

@[simp] theorem opens_cons {line : Chars} {ls : List Chars} :
    Opens (line :: ls) ↔ 0 < (count line).opens ∨ Opens ls := by
  simp [Opens]

@[simp] theorem netOf_nil : netOf [] = 0 := rfl

@[simp] theorem netOf_cons (line : Chars) (ls : List Chars) : netOf (line :: ls) = (count line).net + netOf ls := rfl

theorem netOf_concat (ls : List Chars) (line : Chars) : netOf (ls ++ [line]) = netOf ls + (count line).net := by
  induction ls with
  | nil => simp
  | cons first rest ih => rw [List.cons_append, netOf_cons, ih, netOf_cons, Int.add_assoc]

theorem depthAt_add (ls : List Chars) (start k : Nat) :
    depthAt ls start (start + k) = netOf ((ls.drop start).take k) := by
  rw [depthAt, Nat.add_sub_cancel_left, netOf]

/-- Without an opening brace the depth does not rise. -/
theorem netOf_nonpos {ls : List Chars} (h : ¬ Opens ls) : netOf ls ≤ 0 := by
  induction ls with
  | nil => simp
  | cons line rest ih =>
      rw [opens_cons, not_or] at h
      have hrest := ih h.2
      rw [netOf_cons, Count.net]
      omega

/-! ### The search for the end -/

/-- One line of the search: with a brace open the depth is back at zero, or without one the line ends a statement, or
the search goes on below. -/
theorem endFrom_cons (depth : Int) (opened : Bool) (i : Nat) (line : Chars) (rest : List Chars) :
    (((opened = true ∨ 0 < (count line).opens) ∧ depth + (count line).net ≤ 0 ∨
        ¬ (opened = true ∨ 0 < (count line).opens) ∧ (trimEnd line).getLast? = some ';') ∧
      endFrom depth opened i (line :: rest) = some i) ∨
    ¬ ((opened = true ∨ 0 < (count line).opens) ∧ depth + (count line).net ≤ 0) ∧
      ∃ still, (still = true ↔ opened = true ∨ 0 < (count line).opens) ∧
        endFrom depth opened i (line :: rest) = endFrom (depth + (count line).net) still (i + 1) rest := by
  have hopen : (opened || decide (0 < (count line).opens)) = true ↔ opened = true ∨ 0 < (count line).opens := by simp
  rw [← hopen, endFrom]
  generalize (opened || decide (0 < (count line).opens)) = still
  by_cases hback : still = true ∧ depth + (count line).net ≤ 0
  · exact Or.inl ⟨Or.inl hback, by simp [hback]⟩
  · by_cases hstatement : ¬ still = true ∧ (trimEnd line).getLast? = some ';'
    · exact Or.inl ⟨Or.inr hstatement, by simp [hstatement]⟩
    · refine Or.inr ⟨hback, still, Iff.rfl, ?_⟩
      rw [if_neg (by simpa using hback), if_neg (by simpa using hstatement)]

/-- When the search has gone past some lines with a brace open, the depth is positive. -/
theorem depth_pos_of_passed {depth : Int} {opened : Bool} {i k : Nat} {ls : List Chars} (hpos : 0 < k)
    (hk : k ≤ ls.length) (hpassed : ∀ e, endFrom depth opened i ls = some e → i + k ≤ e)
    (hopens : opened = true ∨ Opens (ls.take k)) : 0 < depth + netOf (ls.take k) := by
  -- The induction is on the lines; whether a brace is open is carried from line to line, as is the depth.
  induction ls generalizing depth opened i k with
  | nil =>
      rw [List.length_nil] at hk
      omega
  | cons line rest ih =>
      obtain ⟨k, rfl⟩ := Nat.exists_eq_succ_of_ne_zero (Nat.ne_of_gt hpos)
      rcases endFrom_cons depth opened i line rest with ⟨-, hends⟩ | ⟨hstays, still, hstill, hnext⟩
      · have hle := hpassed i hends
        omega
      · rw [List.take_succ_cons, opens_cons, ← or_assoc, ← hstill] at hopens
        rw [List.take_succ_cons, netOf_cons, ← Int.add_assoc]
        by_cases hlast : k = 0
        · subst hlast
          have hopen : still = true := by simpa using hopens
          have hnot : ¬ depth + (count line).net ≤ 0 := fun hle => hstays ⟨hstill.mp hopen, hle⟩
          simpa using hnot
        · have hrest : ∀ e, endFrom (depth + (count line).net) still (i + 1) rest = some e → i + 1 + k ≤ e := by
            intro e he
            have hle := hpassed e (by rw [hnext, he])
            omega
          exact ih (Nat.pos_of_ne_zero hlast) (by simpa using hk) hrest hopens

/-- Why the search ends on a line: a brace is open up to it and the depth is back at zero, or none is and the line
ends a statement. -/
theorem ends_of_endFrom {depth : Int} {opened : Bool} {i e : Nat} {ls : List Chars}
    (h : endFrom depth opened i ls = some e) : ∃ k line, e = i + k ∧ ls[k]? = some line ∧
      ((opened = true ∨ Opens (ls.take (k + 1))) ∧ depth + netOf (ls.take (k + 1)) ≤ 0 ∨
        ¬ (opened = true ∨ Opens (ls.take (k + 1))) ∧ (trimEnd line).getLast? = some ';') := by
  induction ls generalizing depth opened i with
  | nil => cases h
  | cons line rest ih =>
      rcases endFrom_cons depth opened i line rest with ⟨hends, hhere⟩ | ⟨-, still, hstill, hnext⟩
      · rw [h, Option.some.injEq] at hhere
        exact ⟨0, line, hhere, rfl, by simpa using hends⟩
      · obtain ⟨k, last, rfl, hlast, hends⟩ := ih (hnext.symm.trans h)
        refine ⟨k + 1, last, by omega, hlast, ?_⟩
        rw [hstill, or_assoc, ← opens_cons, Int.add_assoc, ← netOf_cons, ← List.take_succ_cons] at hends
        exact hends

/-! ### Blocks of a file -/

/-- Some line from `start` on and above line `stop` opens a brace that counts. -/
def OpensIn (ls : List Chars) (start stop : Nat) : Prop :=
  ∃ i line, start ≤ i ∧ i < stop ∧ ls[i]? = some line ∧ 0 < (count line).opens

theorem opensIn_iff {ls : List Chars} {start k : Nat} :
    OpensIn ls start (start + k) ↔ Opens ((ls.drop start).take k) := by
  constructor
  · rintro ⟨i, line, hstart, hstop, hline, hopens⟩
    obtain ⟨j, rfl⟩ := Nat.exists_eq_add_of_le hstart
    refine ⟨line, List.mem_of_getElem? (i := j) ?_, hopens⟩
    rw [List.getElem?_take_of_lt (by omega), List.getElem?_drop, hline]
  · rintro ⟨line, hmem, hopens⟩
    obtain ⟨j, hj⟩ := List.getElem?_of_mem hmem
    rw [List.getElem?_take, List.getElem?_drop] at hj
    split at hj
    · exact ⟨start + j, line, by omega, by omega, hj, hopens⟩
    · cases hj

section
variable {ls : List Chars} {start : Nat}

/-- The search has gone past the lines of a block above the last one. -/
theorem passed_of_le_blockEnd {k e : Nat} (hk : start + k ≤ blockEnd ls start)
    (he : endFrom 0 false start (ls.drop start) = some e) : start + k ≤ e := by
  rw [blockEnd, he] at hk
  exact hk

theorem ends_of_blockEnd_lt (hlt : blockEnd ls start + 1 < ls.length) :
    endFrom 0 false start (ls.drop start) = some (blockEnd ls start) := by
  rw [blockEnd] at hlt ⊢
  cases hfound : endFrom 0 false start (ls.drop start) with
  | none =>
      rw [hfound, Option.getD_none] at hlt
      omega
  | some e => rfl

/-- The block from a line on and the depths before its lines: inside the block the depth is positive exactly from
the line below the first opening brace on, and a block that does not take in the last line of the file has closed
what it opened, or has opened nothing and ends in a semicolon. -/
theorem blockEnd_depths (hstart : start < ls.length) :
    start ≤ blockEnd ls start ∧ blockEnd ls start ≤ ls.length - 1 ∧
      (∀ j, start < j → j ≤ blockEnd ls start →
        ∃ depth, (depths ls start (blockEnd ls start))[j - start]? = some depth ∧
          (OpensIn ls start j → 1 ≤ depth) ∧ (¬ OpensIn ls start j → depth ≤ 0)) ∧
      (blockEnd ls start ≠ ls.length - 1 →
        ∃ depth line, (depths ls start (blockEnd ls start))[blockEnd ls start - start]? = some depth ∧
          ls[blockEnd ls start]? = some line ∧
          (OpensIn ls start (blockEnd ls start + 1) ∧ depth + (count line).net ≤ 0 ∨
            ¬ OpensIn ls start (blockEnd ls start + 1) ∧ (trimEnd line).getLast? = some ';')) := by
  have hle := le_blockEnd ls start
  have hlt := blockEnd_lt hstart
  refine ⟨hle, by omega, ?_, ?_⟩
  · intro j hj hend
    obtain ⟨k, rfl⟩ := Nat.exists_eq_add_of_le (Nat.le_of_lt hj)
    rw [Nat.add_sub_cancel_left, opensIn_iff]
    refine ⟨netOf ((ls.drop start).take k), ?_, ?_, netOf_nonpos⟩
    · rw [getElem?_depths hend hlt, depthAt_add]
    · intro hopens
      have hpassed : ∀ e, endFrom 0 false start (ls.drop start) = some e → start + k ≤ e :=
        fun e he => passed_of_le_blockEnd hend he
      have hcount : k ≤ (ls.drop start).length := by
        rw [List.length_drop]
        omega
      have hpos := depth_pos_of_passed (show 0 < k by omega) hcount hpassed (Or.inr hopens)
      omega
  · intro hlast
    have hfound : endFrom 0 false start (ls.drop start) = some (blockEnd ls start) := ends_of_blockEnd_lt (by omega)
    obtain ⟨k, line, hk, hline, hends⟩ := ends_of_endFrom hfound
    rw [List.getElem?_drop, ← hk] at hline
    have hnet : netOf ((ls.drop start).take (k + 1)) = netOf ((ls.drop start).take k) + (count line).net := by
      rw [List.take_add_one, List.getElem?_drop, ← hk, hline, Option.toList_some, netOf_concat]
    rw [← opensIn_iff, ← Nat.add_assoc, ← hk, hnet, Int.zero_add] at hends
    refine ⟨netOf ((ls.drop start).take k), line, ?_, hline, by simpa using hends⟩
    rw [show blockEnd ls start - start = k by omega, getElem?_depths (Nat.le_of_eq hk.symm) hlt, depthAt_add]

end

/-- A class with a method, a brace in a comment, and a statement below. -/
def nestedClass : List Chars := ["class A \x7b", "  m() \x7b // \x7b", "  \x7d", "\x7d", "const b = 1;"].map String.toList

theorem blockEnd_depths_nestedClass : 0 < nestedClass.length ∧ blockEnd nestedClass 0 = 3 ∧
    depths nestedClass 0 3 = [0, 1, 2, 1] ∧
    (∀ j, 0 < j → j ≤ blockEnd nestedClass 0 →
      ∃ depth, (depths nestedClass 0 (blockEnd nestedClass 0))[j - 0]? = some depth ∧
        (OpensIn nestedClass 0 j → 1 ≤ depth) ∧ (¬ OpensIn nestedClass 0 j → depth ≤ 0)) := by
  have hstart : 0 < nestedClass.length := by decide
  exact ⟨hstart, by decide +kernel, by decide +kernel, (blockEnd_depths hstart).2.2.1⟩

end SourceIndex.Braces
