import Mathlib.Tactic.ByContra
import Mathlib.Tactic.IntervalCases
import SourceIndex.Entity.Notebook
import SourceIndex.Proofs.Text.Truncation

/-! Where a text is cut. The window is the longest beginning within the budget, and the cut is made at the last
structural boundary that stands in it, unless that gives up more than half of the budget. Cutting a cut text
again finds the line feed of the mark as its last boundary, which is where the text was cut; so a second cut
changes nothing, unless the budget is so small that half of it can be lost to one character. -/

namespace SourceIndex.Text

/-! ### The window -/

/-- The longest beginning of a text within the budget. -/
structure IsWindow (budget : Nat) (s window : Chars) : Prop where
  isPrefix : window <+: s
  le_budget : byteLength window ≤ budget
  longest : ∀ other, other <+: s → byteLength other ≤ budget → other <+: window

theorem isWindow_takeBytes (budget : Nat) (s : Chars) : IsWindow budget s (takeBytes budget s) := by
  induction s generalizing budget with
  | nil => exact ⟨List.prefix_refl _, Nat.zero_le _, fun other hother _ => hother⟩
  | cons c rest ih =>
      rw [takeBytes]
      split
      · obtain ⟨hbegin, hle, hlongest⟩ := ih (budget - c.utf8Size)
        refine ⟨List.cons_prefix_cons.mpr ⟨rfl, hbegin⟩, ?_, fun other hother hfits => ?_⟩
        · rw [byteLength]
          omega
        · cases other with
          | nil => exact List.nil_prefix
          | cons d other =>
              obtain ⟨rfl, hbelow⟩ := List.cons_prefix_cons.mp hother
              rw [byteLength] at hfits
              exact List.cons_prefix_cons.mpr ⟨rfl, hlongest other hbelow (by omega)⟩
      · refine ⟨List.nil_prefix, Nat.zero_le _, fun other hother hfits => ?_⟩
        cases other with
        | nil => exact List.nil_prefix
        | cons d other =>
            obtain ⟨rfl, _⟩ := List.cons_prefix_cons.mp hother
            rw [byteLength] at hfits
            omega

theorem byteLength_pos {s : Chars} (h : s ≠ []) : 0 < byteLength s := by
  cases s with
  | nil => exact absurd rfl h
  | cons c rest =>
      rw [byteLength]
      exact Nat.add_pos_left c.utf8Size_pos _

/-- Of two beginnings of a text the shorter one begins the longer one. -/
theorem eq_of_prefix_of_byteLength_le {s t : Chars} (h : s <+: t) (hle : byteLength t ≤ byteLength s) :
    s = t := by
  obtain ⟨rest, rfl⟩ := h
  rw [byteLength_append] at hle
  have hrest : rest = [] := by
    by_contra hne
    have := byteLength_pos hne
    omega
  rw [hrest, List.append_nil]

/-- What a window leaves of the budget is less than a character needs. -/
theorem IsWindow.lt_budget {budget : Nat} {s window : Chars} (h : IsWindow budget s window)
    (hlong : budget < byteLength s) : budget < byteLength window + 4 := by
  obtain ⟨rest, rfl⟩ := h.isPrefix
  cases rest with
  | nil =>
      have := h.le_budget
      rw [List.append_nil] at hlong
      omega
  | cons c rest =>
      by_contra hle
      have hsize := c.utf8Size_le_four
      have hfits : byteLength (window ++ [c]) ≤ budget := by
        rw [byteLength_append, byteLength, byteLength]
        omega
      have hlonger := (h.longest (window ++ [c]) ⟨rest, by simp⟩ hfits).length_le
      simp at hlonger

/-! ### Boundaries -/

/-- A beginning of a text that ends behind a closing brace at the start of a line, or before a line feed. -/
def IsBoundary (s kept : Chars) : Prop :=
  kept <+: s ∧ (['\n', '}'] <:+ kept ∨ kept ++ ['\n'] <+: s)

/-- The boundary of a text behind which there is no other. -/
def IsLastBoundary (s kept : Chars) : Prop :=
  IsBoundary s kept ∧ ∀ other, IsBoundary s other → other <+: kept

theorem isBoundary_cons {c : Char} {rest kept : Chars} :
    IsBoundary (c :: rest) kept ↔
      (kept = [] ∧ c = '\n') ∨ (kept = ['\n', '}'] ∧ c = '\n' ∧ ['}'] <+: rest) ∨
        ∃ later, kept = c :: later ∧ IsBoundary rest later := by
  cases kept with
  | nil =>
      simp only [IsBoundary, List.nil_prefix, true_and, List.nil_append, List.cons_prefix_cons, and_true,
        List.suffix_nil, reduceCtorEq, false_or, false_and, exists_false, or_false]
      exact eq_comm
  | cons d kept =>
      simp only [IsBoundary, List.cons_prefix_cons, List.suffix_cons_iff, List.cons_append, List.cons.injEq]
      constructor
      · rintro ⟨⟨rfl, hbegin⟩, (⟨rfl, rfl⟩ | hbrace) | ⟨_, hfeed⟩⟩
        · exact Or.inr (Or.inl ⟨⟨rfl, rfl⟩, rfl, hbegin⟩)
        · exact Or.inr (Or.inr ⟨kept, ⟨rfl, rfl⟩, hbegin, Or.inl hbrace⟩)
        · exact Or.inr (Or.inr ⟨kept, ⟨rfl, rfl⟩, hbegin, Or.inr hfeed⟩)
      · rintro (⟨hnil, _⟩ | ⟨⟨rfl, rfl⟩, rfl, hbegin⟩ | ⟨later, ⟨rfl, rfl⟩, hbegin, hends⟩)
        · cases hnil
        · exact ⟨⟨rfl, hbegin⟩, Or.inl (Or.inl ⟨rfl, rfl⟩)⟩
        · exact ⟨⟨rfl, hbegin⟩, hends.imp Or.inr fun hfeed => ⟨rfl, hfeed⟩⟩

/-- A boundary behind which a brace stands holds the brace. -/
theorem IsBoundary.brace_isPrefix {s kept : Chars} (h : IsBoundary s kept) (hbrace : ['}'] <+: s) :
    ['}'] <+: kept := by
  obtain ⟨rest, rfl⟩ := hbrace
  rcases isBoundary_cons.mp h with ⟨_, hfeed⟩ | ⟨_, hfeed, _⟩ | ⟨later, rfl, _⟩
  · exact absurd hfeed (by decide)
  · exact absurd hfeed (by decide)
  · exact ⟨later, rfl⟩

/-- A line feed behind which there is no boundary is the last one, or its line's closing brace is. -/
theorem isLastBoundary_feed {rest : Chars} (hnone : ∀ kept, ¬ IsBoundary rest kept) :
    IsLastBoundary ('\n' :: rest) (if rest.head? = some '}' then ['\n', '}'] else []) := by
  split
  · obtain ⟨below, rfl⟩ := List.head?_eq_some_iff.mp ‹_›
    refine ⟨⟨⟨below, rfl⟩, Or.inl (List.suffix_refl _)⟩, fun other hother => ?_⟩
    rcases isBoundary_cons.mp hother with ⟨rfl, _⟩ | ⟨rfl, _⟩ | ⟨inner, _, hinner⟩
    · exact List.nil_prefix
    · exact List.prefix_refl _
    · exact absurd hinner (hnone inner)
  · refine ⟨⟨List.nil_prefix, Or.inr ⟨rest, rfl⟩⟩, fun other hother => ?_⟩
    rcases isBoundary_cons.mp hother with ⟨rfl, _⟩ | ⟨_, _, below, rfl⟩ | ⟨inner, _, hinner⟩
    · exact List.prefix_refl _
    · exact absurd rfl ‹¬ _›
    · exact absurd hinner (hnone inner)

/-- The last boundary behind the first character is the last one. -/
theorem IsLastBoundary.cons {c : Char} {rest kept : Chars} (h : IsLastBoundary rest kept) :
    IsLastBoundary (c :: rest) (c :: kept) := by
  refine ⟨isBoundary_cons.mpr (Or.inr (Or.inr ⟨kept, rfl, h.1⟩)), fun other hother => ?_⟩
  rcases isBoundary_cons.mp hother with ⟨rfl, _⟩ | ⟨rfl, rfl, hbrace⟩ | ⟨inner, rfl, hinner⟩
  · exact List.nil_prefix
  · exact List.cons_prefix_cons.mpr ⟨rfl, h.1.brace_isPrefix hbrace⟩
  · exact List.cons_prefix_cons.mpr ⟨rfl, h.2 inner hinner⟩

/-- The search for a boundary gives the last one, and nothing where there is none. -/
theorem upToBoundary?_spec (s : Chars) :
    (∀ kept, upToBoundary? s = some kept → IsLastBoundary s kept) ∧
      (upToBoundary? s = none → ∀ kept, ¬ IsBoundary s kept) := by
  induction s with
  | nil =>
      refine ⟨fun kept h => ?_, fun _ kept h => ?_⟩
      · cases h
      · obtain ⟨hbegin, hends⟩ := h
        rw [List.prefix_nil] at hbegin
        subst hbegin
        simp at hends
  | cons c rest ih =>
      rw [upToBoundary?]
      cases hrest : upToBoundary? rest with
      | some later =>
          refine ⟨fun kept h => ?_, fun h => ?_⟩
          · cases h
            exact (ih.1 later hrest).cons
          · cases h
      | none =>
          have hnone := ih.2 hrest
          by_cases hfeed : c = '\n'
          · subst c
            refine ⟨fun kept h => ?_, fun h => ?_⟩
            · cases h
              exact isLastBoundary_feed hnone
            · cases h
          · refine ⟨fun kept h => ?_, fun _ kept hkept => ?_⟩
            · rw [if_neg hfeed] at h
              cases h
            · rcases isBoundary_cons.mp hkept with ⟨_, heq⟩ | ⟨_, heq, _⟩ | ⟨later, _, hlater⟩
              · exact hfeed heq
              · exact hfeed heq
              · exact hnone later hlater

theorem IsBoundary.of_isPrefix {s t kept : Chars} (h : IsBoundary s kept) (hst : s <+: t) : IsBoundary t kept :=
  ⟨h.1.trans hst, h.2.imp id fun hfeed => hfeed.trans hst⟩

/-! ### The cut -/

/-- What is kept is the window up to its last boundary, or all of it if no boundary keeps half of the budget. -/
theorem keptOf_cases (budget : Nat) (s : Chars) :
    (budget ≤ 2 * byteLength (keptOf budget s) ∧ IsLastBoundary (takeBytes budget s) (keptOf budget s)) ∨
      (keptOf budget s = takeBytes budget s ∧
        ∀ other, IsBoundary (takeBytes budget s) other → 2 * byteLength other < budget) := by
  obtain ⟨hsome, hnone⟩ := upToBoundary?_spec (takeBytes budget s)
  cases hkept : upToBoundary? (takeBytes budget s) with
  | none =>
      have heq : keptOf budget s = takeBytes budget s := by simp only [keptOf, hkept]
      exact Or.inr ⟨heq, fun other hother => absurd hother (hnone hkept other)⟩
  | some kept =>
      have hlast := hsome kept hkept
      by_cases hhalf : budget ≤ 2 * byteLength kept
      · have heq : keptOf budget s = kept := by simp only [keptOf, hkept, if_pos hhalf]
        rw [heq]
        exact Or.inl ⟨hhalf, hlast⟩
      · have heq : keptOf budget s = takeBytes budget s := by simp only [keptOf, hkept, if_neg hhalf]
        refine Or.inr ⟨heq, fun other hother => ?_⟩
        have hle := prefix_byteLength_le (hlast.2 other hother)
        omega

theorem keptOf_isPrefix (budget : Nat) (s : Chars) : keptOf budget s <+: s := by
  have hwindow := (isWindow_takeBytes budget s).isPrefix
  rcases keptOf_cases budget s with ⟨_, hlast⟩ | ⟨heq, _⟩
  · exact hlast.1.1.trans hwindow
  · exact heq ▸ hwindow

theorem truncate_of_le {budget : Nat} {s : Chars} (h : byteLength s ≤ budget) : truncate budget s = s := if_pos h

theorem truncate_of_lt {budget : Nat} {s : Chars} (h : budget < byteLength s) :
    truncate budget s = keptOf budget s ++ truncationMarker := if_neg (Nat.not_le_of_lt h)

/-- A text within the budget stays as it is. Of a longer one a beginning within the budget is kept: up to the
last boundary in the window if that keeps half of the budget, and else the window. -/
theorem truncate_boundary (budget : Nat) (s : Chars) :
    (byteLength s ≤ budget → truncate budget s = s) ∧
      (budget < byteLength s → ∃ window kept, IsWindow budget s window ∧ kept <+: s ∧
        byteLength kept ≤ budget ∧ truncate budget s = kept ++ truncationMarker ∧
        ((budget ≤ 2 * byteLength kept ∧ IsLastBoundary window kept ∧ IsBoundary s kept) ∨
          (kept = window ∧ budget < byteLength kept + 4 ∧
            ∀ other, IsBoundary window other → 2 * byteLength other < budget))) := by
  refine ⟨truncate_of_le, fun hlong => ?_⟩
  have hwindow := isWindow_takeBytes budget s
  refine ⟨takeBytes budget s, keptOf budget s, hwindow, keptOf_isPrefix budget s, byteLength_keptOf_le budget s,
    truncate_of_lt hlong, ?_⟩
  rcases keptOf_cases budget s with ⟨hhalf, hlast⟩ | ⟨heq, hnone⟩
  · exact Or.inl ⟨hhalf, hlast, hlast.1.of_isPrefix hwindow.isPrefix⟩
  · exact Or.inr ⟨heq, heq ▸ hwindow.lt_budget hlong, hnone⟩

/-! ### Cutting again -/

theorem takeBytes_append {budget : Nat} {s : Chars} (h : byteLength s ≤ budget) (t : Chars) :
    takeBytes budget (s ++ t) = s ++ takeBytes (budget - byteLength s) t := by
  induction s generalizing budget with
  | nil => rfl
  | cons c rest ih =>
      rw [byteLength] at h
      rw [List.cons_append, takeBytes, if_pos (by omega), ih (by omega), byteLength, Nat.sub_add_eq,
        List.cons_append]

theorem takeBytes_zero (s : Chars) : takeBytes 0 s = [] := by
  cases s with
  | nil => rfl
  | cons c rest =>
      have := c.utf8Size_pos
      rw [takeBytes, if_neg (by omega)]

theorem upToBoundary?_of_not_mem {s : Chars} (h : '\n' ∉ s) : upToBoundary? s = none := by
  induction s with
  | nil => rfl
  | cons c rest ih =>
      rw [List.mem_cons, not_or] at h
      rw [upToBoundary?, ih h.2]
      exact if_neg (Ne.symm h.1)

/-- A line feed behind which no line and no brace starts is the last boundary. -/
theorem upToBoundary?_append_feed (s : Chars) {t : Chars} (hfeed : '\n' ∉ t) (hbrace : t.head? ≠ some '}') :
    upToBoundary? (s ++ '\n' :: t) = some s := by
  induction s with
  | nil =>
      rw [List.nil_append, upToBoundary?, upToBoundary?_of_not_mem hfeed]
      simp only [if_true, if_neg hbrace]
  | cons c rest ih => rw [List.cons_append, upToBoundary?, ih]

/-- The mark of a cut is a line feed and characters that are neither line feeds nor braces. -/
theorem takeBytes_truncationMarker (n : Nat) :
    ∃ t : Chars, takeBytes (n + 1) truncationMarker = '\n' :: t ∧ '\n' ∉ t ∧ t.head? ≠ some '}' := by
  have hmark : truncationMarker = '\n' :: "... [truncated]".toList := by decide
  have hbegin := (isWindow_takeBytes n "... [truncated]".toList).isPrefix
  refine ⟨takeBytes n "... [truncated]".toList, ?_, fun hfeed => ?_, fun hbrace => ?_⟩
  · rw [hmark, takeBytes]
    rfl
  · exact absurd (hbegin.subset hfeed) (by decide)
  · exact absurd (hbegin.subset (List.mem_of_head? hbrace)) (by decide)

theorem keptOf_congr {budget : Nat} {s t : Chars} (h : takeBytes budget s = takeBytes budget t) :
    keptOf budget s = keptOf budget t := by
  simp only [keptOf, h]

/-- A cut text is kept by a second cut as far as by the first one, if the first one kept half of the budget. -/
theorem keptOf_append_marker {budget : Nat} {s : Chars} (h : budget ≤ 2 * byteLength (keptOf budget s)) :
    keptOf budget (keptOf budget s ++ truncationMarker) = keptOf budget s := by
  have hle := byteLength_keptOf_le budget s
  by_cases hfull : byteLength (keptOf budget s) = budget
  · -- The window of the cut text is what was kept, and that is the window of the text.
    have hwindow : takeBytes budget (keptOf budget s ++ truncationMarker) = takeBytes budget s := by
      have hkept : keptOf budget s = takeBytes budget s := by
        rcases keptOf_cases budget s with ⟨_, hlast⟩ | ⟨heq, _⟩
        · refine eq_of_prefix_of_byteLength_le hlast.1.1 ?_
          rw [hfull]
          exact byteLength_takeBytes_le budget s
        · exact heq
      rw [takeBytes_append hle, hfull, Nat.sub_self, takeBytes_zero, List.append_nil, hkept]
    exact keptOf_congr hwindow
  · obtain ⟨n, hn⟩ : ∃ n, budget - byteLength (keptOf budget s) = n + 1 :=
      Nat.exists_eq_succ_of_ne_zero (by omega)
    obtain ⟨t, htake, hfeed, hbrace⟩ := takeBytes_truncationMarker n
    have hwindow : takeBytes budget (keptOf budget s ++ truncationMarker) = keptOf budget s ++ '\n' :: t := by
      rw [takeBytes_append hle, hn, htake]
    rw [keptOf, hwindow]
    simp only [upToBoundary?_append_feed _ hfeed hbrace]
    exact if_pos h

/-- A budget of six bytes loses less than half to a character that does not fit. -/
theorem budget_le_of_six {budget : Nat} {s : Chars} (hsix : 6 ≤ budget) (hlong : budget < byteLength s) :
    budget ≤ 2 * byteLength (keptOf budget s) := by
  rcases keptOf_cases budget s with ⟨hhalf, _⟩ | ⟨heq, _⟩
  · exact hhalf
  · have hlt := (isWindow_takeBytes budget s).lt_budget hlong
    rw [heq]
    omega

theorem truncate_truncate {budget : Nat} (h : budget = 0 ∨ 6 ≤ budget) (s : Chars) :
    truncate budget (truncate budget s) = truncate budget s := by
  by_cases hfits : byteLength (truncate budget s) ≤ budget
  · exact truncate_of_le hfits
  · have hlong : budget < byteLength s := by
      by_contra hle
      rw [truncate_of_le (Nat.le_of_not_lt hle)] at hfits
      exact hle (Nat.lt_of_not_le hfits)
    have hkept : budget ≤ 2 * byteLength (keptOf budget s) := by
      rcases h with rfl | hsix
      · exact Nat.zero_le _
      · exact budget_le_of_six hsix hlong
    rw [truncate_of_lt (Nat.lt_of_not_le hfits), truncate_of_lt hlong, keptOf_append_marker hkept]

/-- How many bytes the entities of files and notebooks keep. -/
def entityBudgets : List Nat :=
  [Entity.headerBudget, Entity.fullBudget, Notebook.overviewBudget, Notebook.cellBudget] ++
    EntityKind.all.map Entity.memberBudget

/-- Cutting a cut text again changes no text exactly if the budget is zero or at least six; so it does for all
budgets of entities. -/
theorem truncate_truncate_iff :
    (∀ budget, (∀ s, truncate budget (truncate budget s) = truncate budget s) ↔ budget = 0 ∨ 6 ≤ budget) ∧
      ∀ budget ∈ entityBudgets, ∀ s, truncate budget (truncate budget s) = truncate budget s := by
  refine ⟨fun budget => ⟨fun h => ?_, truncate_truncate⟩, fun budget hbudget => truncate_truncate (Or.inr ?_)⟩
  · by_contra hsmall
    have hlt : budget < 6 := by omega
    -- A character of four bytes that does not fit leaves less than half of the budget to what stands before it.
    let wide := Char.ofNat 0x10000
    interval_cases budget
    · exact hsmall (Or.inl rfl)
    · exact absurd (h [wide]) (by decide)
    · exact absurd (h [wide]) (by decide)
    · exact absurd (h [wide]) (by decide)
    · exact absurd (h ['a', wide]) (by decide)
    · exact absurd (h ['a', 'a', wide]) (by decide)
  · have hall : ∀ budget ∈ entityBudgets, 6 ≤ budget := by decide
    exact hall budget hbudget

end SourceIndex.Text
