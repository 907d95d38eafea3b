import SourceIndex.Proofs.Entity.Methods

/-! Bodies by indentation are maximal. A body takes in code lines as long as they are indented further than the head of
the block, and ends on the last of them; the first code line below it is indented no further than the head. No other
line ends a body in this way. The inner indent comes from a search of its own over the same lines: it is that of the
first code line of the body, so it is missing exactly if the body is empty. -/

namespace SourceIndex.Indentation
open Text

/-- A line is neither blank nor only a comment: its first character that is not blank starts no comment. -/
def HoldsCode (line : Chars) : Prop :=
  ∃ blanks c rest, line = blanks ++ c :: rest ∧ (∀ b ∈ blanks, isBlank b = true) ∧ isBlank c = false ∧ c ≠ '#'

theorem isCode_iff {line : Chars} : isCode line = true ↔ HoldsCode line := by
  constructor
  · intro hcode
    cases htrim : trim line with
    | nil =>
        rw [isCode, htrim] at hcode
        cases hcode
    | cons c kept =>
        rw [isCode, htrim] at hcode
        -- What is trimmed away at the end leaves the first character that is not blank in its place.
        obtain ⟨rest, hrest⟩ : c :: kept <+: trimStart line := htrim ▸ prefix_trimEnd (trimStart line)
        have hblank : isBlank c = false := by
          have hnot := List.head?_dropWhile_not isBlank line
          rwa [← trimStart, ← hrest] at hnot
        refine ⟨line.takeWhile isBlank, c, kept ++ rest, ?_, fun b hb => List.mem_takeWhile_imp hb, hblank, ?_⟩
        · rw [← List.cons_append, hrest, trimStart, List.takeWhile_append_dropWhile]
        · simpa using hcode
  · rintro ⟨blanks, c, rest, rfl, hblanks, hblank, hcomment⟩
    exact isCode_of_append hblanks hblank hcomment

/-! ### The first code line -/

/-- Line `i` is the first one below line `above` that holds code. -/
structure FirstCode (ls : List Chars) (above i : Nat) (line : Chars) : Prop where
  above_lt : above < i
  line_eq : ls[i]? = some line
  holdsCode : HoldsCode line
  first : ∀ j other, above < j → j < i → ls[j]? = some other → ¬ HoldsCode other

/-- Above a line that holds code, or on it, stands the first one. -/
theorem exists_firstCode {ls : List Chars} {above i : Nat} {line : Chars} (habove : above < i)
    (hline : ls[i]? = some line) (hcode : HoldsCode line) : ∃ j first, FirstCode ls above j first ∧ j ≤ i := by
  induction i using Nat.strong_induction_on generalizing line with
  | _ i ih =>
      by_cases hfirst : ∀ j other, above < j → j < i → ls[j]? = some other → ¬ HoldsCode other
      · exact ⟨i, line, ⟨habove, hline, hcode, hfirst⟩, Nat.le_refl i⟩
      · push Not at hfirst
        obtain ⟨j, other, hj, hlt, hother, hotherCode⟩ := hfirst
        obtain ⟨k, first, hk, hle⟩ := ih j hlt hj hother hotherCode
        exact ⟨k, first, hk, Nat.le_trans hle (Nat.le_of_lt hlt)⟩

/-- The search for a code line between two lines finds the first one. -/
theorem find?_isCode_eq_some_iff {ls : List Chars} {above stop : Nat} {line : Chars} :
    ((ls.take (stop + 1)).drop (above + 1)).find? isCode = some line ↔
      ∃ i, FirstCode ls above i line ∧ i ≤ stop := by
  have hat : ∀ {k : Nat} {other : Chars}, ((ls.take (stop + 1)).drop (above + 1))[k]? = some other ↔
      above + 1 + k ≤ stop ∧ ls[above + 1 + k]? = some other := by
    intro k other
    rw [List.getElem?_drop, List.getElem?_take]
    split
    · simp [show above + 1 + k ≤ stop by omega]
    · simp [show ¬ above + 1 + k ≤ stop by omega]
  rw [List.find?_eq_some_iff_getElem]
  constructor
  · rintro ⟨hcode, k, hk, hline, hfirst⟩
    obtain ⟨hle, hget⟩ := hat.mp (List.getElem?_eq_some_iff.mpr ⟨hk, hline⟩)
    refine ⟨above + 1 + k, ⟨by omega, hget, isCode_iff.mp hcode, fun j other hj hlt hother hholds => ?_⟩, hle⟩
    obtain ⟨m, rfl⟩ := Nat.exists_eq_add_of_le (Nat.succ_le_of_lt hj)
    obtain ⟨_, rfl⟩ := List.getElem?_eq_some_iff.mp (hat.mpr ⟨by omega, hother⟩)
    have hnot := hfirst m (by omega)
    rw [isCode_iff.mpr hholds] at hnot
    cases hnot
  · rintro ⟨i, h, hle⟩
    obtain ⟨k, rfl⟩ := Nat.exists_eq_add_of_le (Nat.succ_le_of_lt h.above_lt)
    obtain ⟨hk, hline⟩ := List.getElem?_eq_some_iff.mp (hat.mpr ⟨hle, h.line_eq⟩)
    refine ⟨isCode_iff.mpr h.holdsCode, k, hk, hline, fun m hm => ?_⟩
    obtain ⟨-, hother⟩ := hat.mp (List.getElem?_eq_getElem (Nat.lt_trans hm hk))
    have hnot := h.first _ _ (by omega) (Nat.add_lt_add_left hm _) hother
    simpa [← isCode_iff] using hnot

/-! ### Bodies -/

/-- The body of a block, below a header that ends on line `header`, goes down to line `stop`: its code lines are
indented further than the head, the last line is one of them unless the body is empty, and the first code line below
is indented no further than the head. -/
structure IsBody (ls : List Chars) (head : Chars) (header stop : Nat) : Prop where
  header_le : header ≤ stop
  deeper : ∀ i line, header < i → i ≤ stop → ls[i]? = some line → HoldsCode line → indent head < indent line
  last : stop = header ∨ ∃ line, ls[stop]? = some line ∧ HoldsCode line
  maximal : ∀ i line, FirstCode ls stop i line → indent line ≤ indent head

section
variable {ls : List Chars} {start : Nat} {head : Chars}

/-- The first code line below a block would be a line of the block if it were indented further than the head. -/
theorem indent_le_of_firstCode_blockEnd (hhead : ls[start]? = some head) {i : Nat} {line : Chars}
    (h : FirstCode ls (blockEnd ls start) i line) : indent line ≤ indent head := by
  by_contra hdeeper
  have hreached : i ≤ blockEnd ls start := by
    refine le_blockEnd_of_lt_indent hhead h.line_eq (isCode_iff.mpr h.holdsCode) fun j other hj hle hother hcode => ?_
    by_cases hinside : j ≤ blockEnd ls start
    · exact lt_indent_of_le_blockEnd hhead hother hcode hj hinside
    · -- Between the block and its first code line below no line holds code, so this is that line.
      have hsame : j = i := by
        by_contra hne
        exact h.first j other (by omega) (by omega) hother (isCode_iff.mp hcode)
      subst hsame
      cases hother.symm.trans h.line_eq
      exact Nat.lt_of_not_le hdeeper
  exact absurd h.above_lt (Nat.not_lt_of_le hreached)

theorem isBody_blockEnd (hhead : ls[start]? = some head) :
    IsBody ls head (headerEnd ls start) (blockEnd ls start) where
  header_le := headerEnd_le_blockEnd ls start
  deeper i line hafter hle hline hcode :=
    lt_indent_of_le_blockEnd hhead hline (isCode_iff.mpr hcode) hafter hle
  last := by
    rcases blockEnd_isCode hhead with hempty | ⟨line, hline, hcode⟩
    · exact Or.inl hempty
    · exact Or.inr ⟨line, hline, isCode_iff.mp hcode⟩
  maximal i line h := indent_le_of_firstCode_blockEnd hhead h

namespace IsBody
variable {header a b : Nat}

/-- No body goes down further than another one below the same header: its first code line below the shorter one is
indented further than the head, and then the shorter one would not end there. -/
theorem le (ha : IsBody ls head header a) (hb : IsBody ls head header b) : a ≤ b := by
  by_contra hlonger
  rcases ha.last with hempty | ⟨line, hline, hcode⟩
  · have hheader := hb.header_le
    omega
  · obtain ⟨i, first, hfirst, hle⟩ := exists_firstCode (Nat.lt_of_not_le hlonger) hline hcode
    have hinside := ha.deeper i first (Nat.lt_of_le_of_lt hb.header_le hfirst.above_lt) hle hfirst.line_eq
      hfirst.holdsCode
    exact absurd (hb.maximal i first hfirst) (Nat.not_le_of_lt hinside)

theorem unique (ha : IsBody ls head header a) (hb : IsBody ls head header b) : a = b :=
  Nat.le_antisymm (ha.le hb) (hb.le ha)

/-- A body that is not empty has a first code line. -/
theorem exists_first (h : IsBody ls head header a) (hne : a ≠ header) :
    ∃ i line, FirstCode ls header i line ∧ i ≤ a := by
  rcases h.last with hempty | ⟨line, hline, hcode⟩
  · exact absurd hempty hne
  · exact exists_firstCode (Nat.lt_of_le_of_ne h.header_le hne.symm) hline hcode

end IsBody

/-- The inner indent is that of the first code line below the header. -/
theorem innerIndent_eq_some_iff {stop width : Nat} : innerIndent ls start stop = some width ↔
    ∃ i line, FirstCode ls (headerEnd ls start) i line ∧ i ≤ stop ∧ indent line = width := by
  rw [innerIndent, Option.map_eq_some_iff]
  constructor
  · rintro ⟨line, hfind, hwidth⟩
    obtain ⟨i, hfirst, hle⟩ := find?_isCode_eq_some_iff.mp hfind
    exact ⟨i, line, hfirst, hle, hwidth⟩
  · rintro ⟨i, line, hfirst, hle, hwidth⟩
    exact ⟨line, find?_isCode_eq_some_iff.mpr ⟨i, hfirst, hle⟩, hwidth⟩

/-- There is no inner indent exactly if the body is empty. -/
theorem innerIndent_eq_none_iff {stop : Nat} (h : IsBody ls head (headerEnd ls start) stop) :
    innerIndent ls start stop = none ↔ stop = headerEnd ls start := by
  constructor
  · intro hnone
    by_contra hne
    obtain ⟨i, line, hfirst, hle⟩ := h.exists_first hne
    cases hnone.symm.trans (innerIndent_eq_some_iff.mpr ⟨i, line, hfirst, hle, rfl⟩)
  · intro hempty
    refine Option.eq_none_iff_forall_ne_some.mpr fun width hsome => ?_
    obtain ⟨i, line, hfirst, hle, -⟩ := innerIndent_eq_some_iff.mp hsome
    have hbelow := hfirst.above_lt
    omega

/-- The block that a line heads: its header, then its body, both inside the file. The body is the only one below that
header whose code lines are all indented further than the head, which ends on one of them unless it is empty, and which
leaves out none that it could go on to. Its inner indent is that of its first code line, further than the head's, and
there is none exactly if the body is empty. -/
theorem blockEnd_maximal (hhead : ls[start]? = some head) :
    start ≤ headerEnd ls start ∧ headerEnd ls start ≤ blockEnd ls start ∧ blockEnd ls start < ls.length ∧
      (∀ stop, IsBody ls head (headerEnd ls start) stop ↔ stop = blockEnd ls start) ∧
      (innerIndent ls start (blockEnd ls start) = none ↔ blockEnd ls start = headerEnd ls start) ∧
      ∀ width, innerIndent ls start (blockEnd ls start) = some width → indent head < width ∧
        ∃ i line, FirstCode ls (headerEnd ls start) i line ∧ i ≤ blockEnd ls start ∧ indent line = width := by
  have hbody : IsBody ls head (headerEnd ls start) (blockEnd ls start) := isBody_blockEnd hhead
  refine ⟨(headerEnd_bounds ls start).1, hbody.header_le, ?_, fun stop => ⟨fun h => h.unique hbody, ?_⟩,
    innerIndent_eq_none_iff hbody, fun width hsome => ?_⟩
  · exact blockEnd_lt (List.getElem?_eq_some_iff.mp hhead).1
  · rintro rfl
    exact hbody
  · obtain ⟨i, line, hfirst, hle, rfl⟩ := innerIndent_eq_some_iff.mp hsome
    exact ⟨hbody.deeper i line hfirst.above_lt hle hfirst.line_eq hfirst.holdsCode, i, line, hfirst, hle, rfl⟩

end

/-- A function whose header takes three lines, with a comment at the margin inside its body and one below it. -/
def splitHeader : List Chars :=
  ["def total(", "    prices,", "):", "\tsum = 0", "", "# all of them", "    for price in prices:",
    "        sum += price", "", "    # done", "print(total)"].map String.toList

theorem blockEnd_maximal_splitHeader : splitHeader[0]? = some "def total(".toList ∧ headerEnd splitHeader 0 = 2 ∧
    blockEnd splitHeader 0 = 7 ∧ innerIndent splitHeader 0 7 = some 4 ∧
    (∀ stop, IsBody splitHeader "def total(".toList 2 stop ↔ stop = 7) ∧
    ∀ width, innerIndent splitHeader 0 7 = some width → indent "def total(".toList < width := by
  have hhead : splitHeader[0]? = some "def total(".toList := rfl
  have hheader : headerEnd splitHeader 0 = 2 := by decide +kernel
  have hend : blockEnd splitHeader 0 = 7 := by decide +kernel
  obtain ⟨-, -, -, hbody, -, hinner⟩ := blockEnd_maximal hhead
  rw [hend] at hbody hinner
  rw [hheader] at hbody
  exact ⟨hhead, hheader, hend, by decide +kernel, hbody, fun width hwidth => (hinner width hwidth).1⟩

end SourceIndex.Indentation
