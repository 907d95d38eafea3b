import SourceIndex.Entity.Braces
import SourceIndex.Entity.Indentation

/-! Where blocks end. A block that starts on a line of a file ends on that line or further down, and never
below the last line of the file: not when its braces or brackets stay open, and not when it has no body. A
body by indentation goes as far as its code lines are indented further than its head. -/

namespace SourceIndex

/-- The line that a search from `start` on has found, or else the last line. -/
theorem getD_last_bounds {found : Option Nat} {start count : Nat}
    (h : ∀ e, found = some e → start ≤ e ∧ e < start + (count - start)) :
    start ≤ found.getD (max (count - 1) start) ∧
      (start < count → found.getD (max (count - 1) start) < count) := by
  cases found with
  | none =>
      rw [Option.getD_none]
      omega
  | some e =>
      have hfound := h e rfl
      rw [Option.getD_some]
      omega

namespace Braces

/-- The line that ends a block is one of those that were looked at. -/
theorem endFrom_bounds {depth : Int} {opened : Bool} {i e : Nat} {ls : List Text.Chars}
    (h : endFrom depth opened i ls = some e) : i ≤ e ∧ e < i + ls.length := by
  induction ls generalizing depth opened i with
  | nil => cases h
  | cons line rest ih =>
      simp only [endFrom] at h
      split at h
      · cases h
        simp
      · split at h
        · cases h
          simp
        · obtain ⟨hle, hlt⟩ := ih h
          rw [List.length_cons]
          omega

theorem blockEnd_bounds (ls : List Text.Chars) (start : Nat) :
    start ≤ blockEnd ls start ∧ (start < ls.length → blockEnd ls start < ls.length) := by
  refine getD_last_bounds fun e h => ?_
  have hbounds := endFrom_bounds h
  rwa [List.length_drop] at hbounds

theorem le_blockEnd (ls : List Text.Chars) (start : Nat) : start ≤ blockEnd ls start :=
  (blockEnd_bounds ls start).1

theorem blockEnd_lt {ls : List Text.Chars} {start : Nat} (h : start < ls.length) :
    blockEnd ls start < ls.length :=
  (blockEnd_bounds ls start).2 h

end Braces

namespace Indentation

theorem headerEndFrom_bounds {net : Int} {i e : Nat} {ls : List Text.Chars}
    (h : headerEndFrom net i ls = some e) : i ≤ e ∧ e < i + ls.length := by
  induction ls generalizing net i with
  | nil => cases h
  | cons line rest ih =>
      simp only [headerEndFrom] at h
      split at h
      · cases h
        simp
      · obtain ⟨hle, hlt⟩ := ih h
        rw [List.length_cons]
        omega

theorem headerEnd_bounds (ls : List Text.Chars) (start : Nat) :
    start ≤ headerEnd ls start ∧ (start < ls.length → headerEnd ls start < ls.length) := by
  refine getD_last_bounds fun e h => ?_
  have hbounds := headerEndFrom_bounds h
  rwa [List.length_drop] at hbounds

/-- A body ends on the line before it or on one of its own. -/
theorem blockEndFrom_bounds (base : Nat) {last i : Nat} (h : last < i) (ls : List Text.Chars) :
    last ≤ blockEndFrom base last i ls ∧ blockEndFrom base last i ls < i + ls.length := by
  induction ls generalizing last i with
  | nil => exact ⟨Nat.le_refl _, h⟩
  | cons line rest ih =>
      rw [blockEndFrom, List.length_cons]
      split
      · obtain ⟨hle, hlt⟩ := ih (show last < i + 1 by omega)
        omega
      · split
        · omega
        · obtain ⟨hle, hlt⟩ := ih (Nat.lt_add_one i)
          omega

theorem headerEnd_le_blockEnd (ls : List Text.Chars) (start : Nat) :
    headerEnd ls start ≤ blockEnd ls start :=
  (blockEndFrom_bounds _ (Nat.lt_add_one _) _).1

theorem le_blockEnd (ls : List Text.Chars) (start : Nat) : start ≤ blockEnd ls start :=
  Nat.le_trans (headerEnd_bounds ls start).1 (headerEnd_le_blockEnd ls start)

theorem blockEnd_lt {ls : List Text.Chars} {start : Nat} (h : start < ls.length) :
    blockEnd ls start < ls.length := by
  have hheader := (headerEnd_bounds ls start).2 h
  have hlt := (blockEndFrom_bounds ((ls[start]?.map indent).getD 0)
    (Nat.lt_add_one (headerEnd ls start)) (ls.drop (headerEnd ls start + 1))).2
  rw [List.length_drop] at hlt
  simp only [blockEnd]
  omega

/-! ### What a body takes in -/

section
open Text

/-- A code line that a body takes in is indented further than its head. -/
theorem lt_indent_of_le_blockEndFrom {base last i k : Nat} {ls : List Chars} {line : Chars}
    (hlast : last < i) (hline : ls[k]? = some line) (hcode : isCode line = true)
    (hle : i + k ≤ blockEndFrom base last i ls) : base < indent line := by
  induction ls generalizing last i k with
  | nil => cases hline
  | cons first rest ih =>
      rw [blockEndFrom] at hle
      cases k with
      | zero =>
          cases hline
          rw [hcode] at hle
          by_cases hdeeper : base < indent line
          · exact hdeeper
          · rw [if_neg (by simp), if_pos (Nat.le_of_not_lt hdeeper)] at hle
            omega
      | succ k =>
          rw [List.getElem?_cons_succ] at hline
          split at hle
          · exact ih (Nat.lt_add_right 1 hlast) hline (by omega)
          · split at hle
            · omega
            · exact ih (Nat.lt_add_one i) hline (by omega)

/-- A body goes on to a code line if it and all code lines before it are indented further than the head. -/
theorem le_blockEndFrom {base last i k : Nat} {ls : List Chars} {line : Chars} (hlast : last < i)
    (hline : ls[k]? = some line) (hcode : isCode line = true)
    (hdeeper : ∀ j other, j ≤ k → ls[j]? = some other → isCode other = true → base < indent other) :
    i + k ≤ blockEndFrom base last i ls := by
  induction ls generalizing last i k with
  | nil => cases hline
  | cons first rest ih =>
      have hrest : ∀ j other, j + 1 ≤ k → rest[j]? = some other → isCode other = true →
          base < indent other := fun j other hj hother =>
        hdeeper (j + 1) other hj (by rw [List.getElem?_cons_succ, hother])
      rw [blockEndFrom]
      cases k with
      | zero =>
          cases hline
          rw [hcode, if_neg (by simp), if_neg (Nat.not_le_of_lt (hdeeper 0 line (Nat.le_refl 0) rfl hcode))]
          exact (blockEndFrom_bounds base (Nat.lt_add_one i) rest).1
      | succ k =>
          rw [List.getElem?_cons_succ] at hline
          split
          · have := ih (Nat.lt_add_right 1 hlast) hline fun j other hj => hrest j other (by omega)
            omega
          · have hfirst := hdeeper 0 first (Nat.zero_le _) rfl (by simpa using ‹¬(!isCode first) = true›)
            rw [if_neg (Nat.not_le_of_lt hfirst)]
            have := ih (Nat.lt_add_one i) hline fun j other hj => hrest j other (by omega)
            omega

/-- A body ends on the line before it or on a code line. -/
theorem blockEndFrom_isCode (base last i : Nat) (ls : List Chars) :
    blockEndFrom base last i ls = last ∨
      ∃ k line, ls[k]? = some line ∧ isCode line = true ∧ blockEndFrom base last i ls = i + k := by
  induction ls generalizing last i with
  | nil => exact Or.inl rfl
  | cons first rest ih =>
      rw [blockEndFrom]
      split
      · rcases ih last (i + 1) with heq | ⟨k, line, hline, hcode, heq⟩
        · exact Or.inl heq
        · exact Or.inr ⟨k + 1, line, hline, hcode, by omega⟩
      · split
        · exact Or.inl rfl
        · have hfirst : isCode first = true := by simpa using ‹¬(!isCode first) = true›
          rcases ih i (i + 1) with heq | ⟨k, line, hline, hcode, heq⟩
          · exact Or.inr ⟨0, first, rfl, hfirst, heq⟩
          · exact Or.inr ⟨k + 1, line, hline, hcode, by omega⟩

section
variable {ls : List Chars} {start : Nat} {head : Chars}

theorem blockEnd_eq (hhead : ls[start]? = some head) :
    blockEnd ls start = blockEndFrom (indent head) (headerEnd ls start) (headerEnd ls start + 1)
      (ls.drop (headerEnd ls start + 1)) := by
  rw [blockEnd, hhead]
  rfl

/-- The code lines of a block below its header are indented further than its head. -/
theorem lt_indent_of_le_blockEnd (hhead : ls[start]? = some head) {i : Nat} {line : Chars}
    (hline : ls[i]? = some line) (hcode : isCode line = true) (hafter : headerEnd ls start < i)
    (hle : i ≤ blockEnd ls start) : indent head < indent line := by
  obtain ⟨k, rfl⟩ := Nat.exists_eq_add_of_le (Nat.succ_le_of_lt hafter)
  rw [blockEnd_eq hhead] at hle
  rw [← List.getElem?_drop] at hline
  exact lt_indent_of_le_blockEndFrom (Nat.lt_add_one _) hline hcode hle

/-- A block takes in a code line if it and all code lines between it and the header are indented further
than the head. -/
theorem le_blockEnd_of_lt_indent (hhead : ls[start]? = some head) {i : Nat} {line : Chars}
    (hline : ls[i]? = some line) (hcode : isCode line = true)
    (hdeeper : ∀ j other, headerEnd ls start < j → j ≤ i → ls[j]? = some other → isCode other = true →
      indent head < indent other) : i ≤ blockEnd ls start := by
  by_cases hafter : headerEnd ls start < i
  · obtain ⟨k, rfl⟩ := Nat.exists_eq_add_of_le (Nat.succ_le_of_lt hafter)
    rw [blockEnd_eq hhead]
    rw [← List.getElem?_drop] at hline
    refine le_blockEndFrom (Nat.lt_add_one _) hline hcode fun j other hj hother => ?_
    rw [List.getElem?_drop] at hother
    exact hdeeper _ other (by omega) (by omega) hother
  · exact Nat.le_trans (Nat.le_of_not_lt hafter) (headerEnd_le_blockEnd ls start)

theorem blockEnd_isCode (hhead : ls[start]? = some head) :
    blockEnd ls start = headerEnd ls start ∨
      ∃ line, ls[blockEnd ls start]? = some line ∧ isCode line = true := by
  rw [blockEnd_eq hhead]
  rcases blockEndFrom_isCode (indent head) (headerEnd ls start) (headerEnd ls start + 1)
    (ls.drop (headerEnd ls start + 1)) with heq | ⟨k, line, hline, hcode, heq⟩
  · exact Or.inl heq
  · right
    rw [heq, ← List.getElem?_drop]
    exact ⟨line, hline, hcode⟩

end

/-- The inner indent is that of a code line of the block below its header. -/
theorem exists_of_innerIndent {ls : List Chars} {start stop width : Nat}
    (h : innerIndent ls start stop = some width) :
    ∃ i line, headerEnd ls start < i ∧ i ≤ stop ∧ ls[i]? = some line ∧ isCode line = true ∧
      indent line = width := by
  obtain ⟨line, hfind, hindent⟩ := Option.map_eq_some_iff.mp h
  obtain ⟨k, hk⟩ := List.getElem?_of_mem (List.mem_of_find?_eq_some hfind)
  rw [List.getElem?_drop, List.getElem?_take] at hk
  split at hk
  · exact ⟨headerEnd ls start + 1 + k, line, by omega, by omega, hk, List.find?_some hfind, hindent⟩
  · cases hk

end

end Indentation
end SourceIndex
