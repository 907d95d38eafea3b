import SourceIndex.Text.Lines
import Mathlib.Data.List.DropRight
import Mathlib.Data.List.Nodup

/-! Lists of texts without repetitions. The names that a file mentions are trimmed, none is empty and each
stands once; where a list of texts is cleared of repetitions, what remains keeps the order of first
occurrence. -/

namespace SourceIndex.Text

/-! ### Trimmed texts -/

theorem prefix_trimEnd (s : Chars) : trimEnd s <+: s := List.rdropWhile_prefix isBlank s

theorem trimEnd_trimEnd (s : Chars) : trimEnd (trimEnd s) = trimEnd s :=
  List.rdropWhile_idempotent isBlank s

theorem trimStart_trimStart (s : Chars) : trimStart (trimStart s) = trimStart s :=
  List.dropWhile_idempotent isBlank s

/-- A beginning of a text that starts with no blank starts with none. -/
theorem trimStart_prefix_eq_self {s t : Chars} (h : s <+: t) (ht : trimStart t = t) : trimStart s = s := by
  cases s with
  | nil => rfl
  | cons c s =>
      obtain ⟨rest, rfl⟩ := h
      rw [trimStart, List.cons_append] at ht
      rw [trimStart]
      by_cases hc : isBlank c = true
      · rw [List.dropWhile_cons_of_pos hc] at ht
        have hlength := List.dropWhile_sublist isBlank (l := s ++ rest)
        exact absurd (ht ▸ hlength.length_le) (by simp)
      · exact List.dropWhile_cons_of_neg hc

@[simp] theorem trim_trim (s : Chars) : trim (trim s) = trim s := by
  have hstart : trimStart (trim s) = trim s :=
    trimStart_prefix_eq_self (prefix_trimEnd (trimStart s)) (trimStart_trimStart s)
  calc trim (trim s) = trimEnd (trim s) := by rw [trim, hstart]
    _ = trim s := trimEnd_trimEnd (trimStart s)

/-- A text without anything but blanks is empty when it is trimmed. -/
theorem isEmpty_trim (s : Chars) : (trim s).isEmpty = isBlankText s := by
  rw [Bool.eq_iff_iff, List.isEmpty_iff, isBlankText, List.all_eq_true, trim]
  constructor
  · intro h
    have hall := List.rdropWhile_eq_nil_iff.mp h
    cases hstart : trimStart s with
    | nil => exact List.dropWhile_eq_nil_iff.mp hstart
    | cons c rest =>
        have hblank := hall c (hstart ▸ List.mem_cons_self)
        have hnot := List.head?_dropWhile_not isBlank s
        rw [show s.dropWhile isBlank = c :: rest from hstart] at hnot
        exact absurd hblank (Bool.eq_false_iff.mp hnot)
  · intro h
    rw [show trimStart s = [] from List.dropWhile_eq_nil_iff.mpr h]
    rfl

/-! ### Distinct trimmed texts -/

/-- Texts none of which is empty, has blanks at an end or stands twice. -/
structure Distinct (values : List Chars) : Prop where
  nodup : values.Nodup
  ne_nil : ∀ value ∈ values, value ≠ []
  trimmed : ∀ value ∈ values, trim value = value

namespace Distinct

theorem nil : Distinct [] where
  nodup := List.nodup_nil
  ne_nil _ h := absurd h List.not_mem_nil
  trimmed _ h := absurd h List.not_mem_nil

theorem append_trim {seen : List Chars} (h : Distinct seen) {value : Chars} (hne : trim value ≠ [])
    (hfresh : trim value ∉ seen) : Distinct (seen ++ [trim value]) where
  nodup := by
    rw [← List.concat_eq_append]
    exact List.Nodup.concat hfresh h.nodup
  ne_nil text htext := by
    rcases List.mem_append.mp htext with hseen | hnew
    · exact h.ne_nil text hseen
    · rw [List.mem_singleton.mp hnew]
      exact hne
  trimmed text htext := by
    rcases List.mem_append.mp htext with hseen | hnew
    · exact h.trimmed text hseen
    · rw [List.mem_singleton.mp hnew]
      exact trim_trim value

theorem sublist {some all : List Chars} (h : Distinct all) (hsub : some.Sublist all) : Distinct some where
  nodup := h.nodup.sublist hsub
  ne_nil value hvalue := h.ne_nil value (hsub.subset hvalue)
  trimmed value hvalue := h.trimmed value (hsub.subset hvalue)

end Distinct

/-- Whatever values are given, those kept of them are trimmed, not empty and distinct. -/
theorem distinct_distinctTrimmed (values : List Chars) : Distinct (distinctTrimmed values) := by
  have hstep : ∀ (values seen : List Chars), Distinct seen →
      Distinct (values.foldl (fun seen value =>
        let value := trim value
        if value.isEmpty || seen.contains value then seen else seen ++ [value]) seen) := by
    intro values
    induction values with
    | nil =>
        intro seen h
        exact h
    | cons value rest ih =>
        intro seen h
        rw [List.foldl_cons]
        refine ih _ ?_
        simp only
        split
        · exact h
        · rename_i hnew
          simp only [Bool.or_eq_true, List.isEmpty_iff, List.contains_iff_mem, not_or] at hnew
          exact h.append_trim hnew.1 hnew.2
  exact hstep values [] Distinct.nil

/-! ### Order of first occurrence -/

section
variable {α : Type} [BEq α] [LawfulBEq α]

/-- What is kept of a list after filtering and clearing it of repetitions stands in the order of first
occurrence in the list. -/
theorem pairwise_idxOf_eraseDups_filter (p : α → Bool) (l : List α) :
    (l.filter p).eraseDups.Pairwise fun a b => l.idxOf a < l.idxOf b := by
  induction l generalizing p with
  | nil => exact List.Pairwise.nil
  | cons x l ih =>
      -- For members other than the head, both indexes go up by one.
      have hshift : ∀ q : α → Bool, q x = false →
          (l.filter q).eraseDups.Pairwise fun a b => (x :: l).idxOf a < (x :: l).idxOf b := by
        intro q hq
        have hne : ∀ a ∈ (l.filter q).eraseDups, x ≠ a := by
          rintro a ha rfl
          rw [List.mem_eraseDups, List.mem_filter, hq] at ha
          cases ha.2
        refine (ih q).imp_of_mem fun {a b} ha hb hab => ?_
        rw [List.idxOf_cons_ne _ (hne a ha), List.idxOf_cons_ne _ (hne b hb)]
        exact Nat.succ_lt_succ hab
      cases hx : p x with
      | false =>
          rw [List.filter_cons_of_neg (by simp [hx])]
          exact hshift p hx
      | true =>
          rw [List.filter_cons_of_pos hx, List.eraseDups_cons, List.filter_filter]
          refine List.Pairwise.cons (fun b hb => ?_) (hshift _ (by simp))
          rw [List.mem_eraseDups, List.mem_filter] at hb
          have hne : x ≠ b := by
            rintro rfl
            simp at hb
          rw [List.idxOf_cons_self, List.idxOf_cons_ne _ hne]
          exact Nat.succ_pos _

/-- Of the first few different members a list keeps those with fewer different members before them. -/
theorem mem_take_eraseDups_iff {l : List α} {a : α} {n : Nat} :
    a ∈ l.eraseDups.take n ↔ a ∈ l ∧ (l.takeWhile (· != a)).eraseDups.length < n := by
  by_cases ha : a ∈ l
  · -- Everything before the first place of the member is another one.
    obtain ⟨before, after, rfl, hbefore⟩ := List.eq_append_cons_of_mem ha
    have htake : (before ++ a :: after).takeWhile (· != a) = before := by
      rw [List.takeWhile_append_of_pos fun b hb => bne_iff_ne.mpr fun heq : b = a => hbefore (heq ▸ hb)]
      simp
    have hremove : (a :: after).removeAll before = a :: after.removeAll before := by
      rw [List.cons_removeAll]
      simp [hbefore]
    have hnot : a ∉ before.eraseDups := mt List.mem_eraseDups.mp hbefore
    rw [htake, List.eraseDups_append, hremove, List.eraseDups_cons, List.take_append, List.mem_append]
    simp only [ha, true_and]
    constructor
    · rintro (hmem | hmem)
      · exact absurd (List.mem_of_mem_take hmem) hnot
      · by_contra hle
        rw [Nat.sub_eq_zero_of_le (Nat.le_of_not_lt hle), List.take_zero] at hmem
        cases hmem
    · intro hlt
      obtain ⟨k, hk⟩ := Nat.exists_eq_add_of_lt hlt
      refine Or.inr ?_
      rw [hk, Nat.add_assoc, Nat.add_sub_cancel_left, List.take_succ_cons]
      exact List.mem_cons_self
  · refine iff_of_false (fun hmem => ha ?_) (fun hmem => ha hmem.1)
    exact List.mem_eraseDups.mp (List.mem_of_mem_take hmem)

theorem takeWhile_ne_filter (p : α → Bool) {a : α} (ha : p a = true) (l : List α) :
    (l.filter p).takeWhile (· != a) = (l.takeWhile (· != a)).filter p := by
  induction l with
  | nil => rfl
  | cons b l ih =>
      by_cases hab : b = a
      · subst hab
        simp [ha]
      · by_cases hb : p b = true
        · simp [hb, hab, ih]
        · simp [hb, hab, ih]
end

/-- The positions in a numbered list go up. -/
theorem zipIdx_sorted {α : Type} (l : List α) (n : Nat) : (l.zipIdx n).Pairwise fun a b => a.2 < b.2 := by
  have hsorted : ((l.zipIdx n).map Prod.snd).Pairwise (· < ·) := by
    rw [List.zipIdx_map_snd]
    exact List.pairwise_lt_range'
  exact List.pairwise_map.mp hsorted

end SourceIndex.Text
