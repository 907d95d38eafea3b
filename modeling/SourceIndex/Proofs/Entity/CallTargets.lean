import SourceIndex.Entity.Calls
import SourceIndex.Entity.Symbols
import SourceIndex.Proofs.Text.Matching

/-! Call targets as matches. The scan for call targets goes over a text once and remembers the name it has read
last; what it finds are the names that the pattern of a call captures, match by match. Where a name, blanks and a
bracket stand, the match ends behind the bracket and the scan starts anew there. Where the bracket is missing there
is no match, and what the scan remembers of the name has no effect on the targets that follow. -/

namespace SourceIndex.Text.Pattern

/-- A run goes as far as the class does if that leads to a match. -/
theorem manyThen_of_longest {p : Char → Bool} {k : Continuation} {captures : Captures} {run rest : Chars}
    {before : Option Char} {offset : Nat} {found : Found} (hrun : ∀ c ∈ run, p c = true)
    (hrest : ∀ c ∈ rest.head?, p c = false)
    (h : ∀ before, k ⟨before, offset + run.length, rest⟩ captures = some found) :
    manyThen p k captures (run ++ rest) before offset = some found := by
  induction run generalizing before offset with
  | nil =>
      cases rest with
      | nil => exact h before
      | cons c rest =>
          rw [List.nil_append, manyThen, hrest c rfl]
          exact h before
  | cons c run ih =>
      obtain ⟨hc, hrun⟩ := List.forall_mem_cons.mp hrun
      rw [List.cons_append, manyThen, if_pos hc, ih hrun]
      intro before
      rw [Nat.add_assoc, Nat.add_comm 1]
      exact h before

end SourceIndex.Text.Pattern

namespace SourceIndex.Calls
open Text Pattern

/-- An identifier, kept as capture 1, and an opening bracket, with blanks between them at most. -/
def call : Pattern := .capture 1 (.one isNameStart ++ .many isNamePart) ++ blanks ++ word "("

/-- Maybe blanks, then an opening bracket. -/
def Opened (s : Chars) : Prop := ∃ gap rest, s = gap ++ '(' :: rest ∧ ∀ c ∈ gap, isBlank c = true

/-- The rest of a name in front of an opening bracket. -/
def EndsAsCall (s : Chars) : Prop :=
  ∃ name rest, s = name ++ rest ∧ (∀ c ∈ name, isNamePart c = true) ∧ Opened rest

variable {c : Char} {name gap rest reversed s : Chars}

theorem Opened.cons (hc : isBlank c = true) (h : Opened s) : Opened (c :: s) := by
  obtain ⟨gap, rest, rfl, hgap⟩ := h
  exact ⟨c :: gap, rest, rfl, List.forall_mem_cons.mpr ⟨hc, hgap⟩⟩

theorem Opened.endsAsCall (h : Opened s) : EndsAsCall s := ⟨[], s, rfl, List.forall_mem_nil _, h⟩

theorem EndsAsCall.cons (hc : isNamePart c = true) (h : EndsAsCall s) : EndsAsCall (c :: s) := by
  obtain ⟨name, rest, rfl, hname, hopened⟩ := h
  exact ⟨c :: name, rest, rfl, List.forall_mem_cons.mpr ⟨hc, hname⟩, hopened⟩

theorem isNamePart_of_isNameStart (h : isNameStart c = true) : isNamePart c = true := by
  simp only [isNameStart, isNamePart, isAsciiAlphanumeric, Bool.or_eq_true] at h ⊢
  exact h.imp_left (.imp_left .inl)

theorem range_of_isNamePart (h : isNamePart c = true) : 36 ≤ c.toNat ∧ c.toNat < 128 := by
  have hupper : c.isUpper = decide (65 ≤ c.val ∧ c.val ≤ 90) := rfl
  have hlower : c.isLower = (decide (97 ≤ c.val) && decide (c.val ≤ 122)) := rfl
  have hdigit : c.isDigit = (decide (48 ≤ c.val) && decide (c.val ≤ 57)) := rfl
  simp only [isNamePart, isAsciiAlphanumeric, isAsciiLetter, hupper, hlower, hdigit, Bool.or_eq_true,
    Bool.and_eq_true, decide_eq_true_eq, UInt32.le_iff_toNat_le, UInt32.reduceToNat, Char.toNat_val] at h
  rcases h with ((hletter | hdigit) | rfl) | rfl
  · omega
  · omega
  · decide
  · decide

/-- No character of a name is blank. -/
theorem isNamePart_of_isBlank (h : isBlank c = true) : isNamePart c = false := by
  refine Bool.eq_false_iff.mpr fun hpart => ?_
  obtain ⟨hle, hlt⟩ := range_of_isNamePart hpart
  simp only [isBlank, if_pos hlt, Bool.or_eq_true, Bool.and_eq_true, decide_eq_true_eq] at h
  omega

/-! ### Matches -/

theorem matchAt_call {before : Option Char} {offset : Nat} (hc : isNameStart c = true)
    (hname : ∀ d ∈ name, isNamePart d = true) (hgap : ∀ d ∈ gap, isBlank d = true) :
    call.matchAt ⟨before, offset, c :: (name ++ (gap ++ '(' :: rest))⟩ =
      some ⟨offset + 1 + name.length + gap.length + 1, [(1, c :: name)]⟩ := by
  have hpart : ∀ d ∈ (gap ++ '(' :: rest).head?, isNamePart d = false := by
    cases gap with
    | nil => exact fun d hd => Option.mem_some.mp hd ▸ rfl
    | cons b gap =>
        exact fun d hd => Option.mem_some.mp hd ▸ isNamePart_of_isBlank (List.forall_mem_cons.mp hgap).1
  refine (if_pos hc).trans (manyThen_of_longest hname hpart fun before => ?_)
  refine manyThen_of_longest hgap (fun d hd => Option.mem_some.mp hd ▸ rfl) fun before => ?_
  have htaken : (c :: (name ++ (gap ++ '(' :: rest))).take (offset + 1 + name.length - offset) = c :: name := by
    rw [Nat.add_assoc, Nat.add_sub_cancel_left, Nat.add_comm 1, List.take_succ_cons, List.take_left]
  rw [← htaken]
  rfl

theorem endsAsCall_of_matchAt {before : Option Char} {offset : Nat} {found : Found}
    (h : call.matchAt ⟨before, offset, c :: s⟩ = some found) : isNameStart c = true ∧ EndsAsCall s := by
  obtain ⟨_, ⟨_, _, rfl, ⟨_, gap, rfl, ⟨_, name, rfl, ⟨d, rfl, hd⟩, hname⟩, hgap⟩, rfl⟩, _, rest, _, heq, -⟩ :=
    takes_matchThen h
  obtain ⟨rfl, rfl⟩ := List.cons.inj heq
  exact ⟨hd, name, gap ++ '(' :: rest, by simp, hname, gap, rest, rfl, hgap⟩

/-! ### Scanning -/

theorem targets_cons (c : Char) (s : Chars) :
    targets (c :: s) = if isNameStart c then targetsFrom (.name [c]) s else targets s := rfl

theorem targetsFrom_gap (hgap : ∀ d ∈ gap, isBlank d = true) :
    targetsFrom (.gap reversed) (gap ++ '(' :: rest) = reversed.reverse :: targets rest := by
  induction gap with
  | nil => rfl
  | cons c gap ih =>
      obtain ⟨hc, hgap⟩ := List.forall_mem_cons.mp hgap
      rw [List.cons_append, targetsFrom, if_pos hc, ih hgap]

theorem targetsFrom_name (hname : ∀ d ∈ name, isNamePart d = true) (hgap : ∀ d ∈ gap, isBlank d = true) :
    targetsFrom (.name reversed) (name ++ (gap ++ '(' :: rest)) =
      (reversed.reverse ++ name) :: targets rest := by
  induction name generalizing reversed with
  | nil =>
      rw [List.append_nil]
      cases gap with
      | nil => rfl
      | cons c gap =>
          obtain ⟨hc, hgap⟩ := List.forall_mem_cons.mp hgap
          rw [List.nil_append, List.cons_append, targetsFrom, isNamePart_of_isBlank hc, if_pos hc,
            targetsFrom_gap hgap]
          rfl
  | cons c name ih =>
      obtain ⟨hc, hname⟩ := List.forall_mem_cons.mp hname
      rw [List.cons_append, targetsFrom, if_pos hc, ih hname, List.reverse_cons, List.append_assoc]
      rfl

/-- Blanks without a bracket behind them leave nothing of the name before them. -/
theorem targetsFrom_gap_of_not (h : ¬ Opened s) : targetsFrom (.gap reversed) s = targets s := by
  induction s with
  | nil => rfl
  | cons c s ih =>
      have hbracket : c ≠ '(' := fun heq => h ⟨[], s, by rw [heq, List.nil_append], List.forall_mem_nil _⟩
      rw [targets_cons, targetsFrom, if_neg hbracket]
      by_cases hc : isBlank c = true
      · have hstart : ¬ isNameStart c = true := fun hstart => by
          simpa [isNamePart_of_isNameStart hstart] using isNamePart_of_isBlank hc
        rw [if_pos hc, if_neg hstart, ih fun hopened => h (hopened.cons hc)]
      · rw [if_neg hc]
        rfl

/-- So does a name without a bracket behind it. -/
theorem targetsFrom_name_of_not (h : ¬ EndsAsCall s) : targetsFrom (.name reversed) s = targets s := by
  induction s generalizing reversed with
  | nil => rfl
  | cons c s ih =>
      have hbracket : c ≠ '(' := fun heq =>
        h (Opened.endsAsCall ⟨[], s, by rw [heq, List.nil_append], List.forall_mem_nil _⟩)
      rw [targets_cons, targetsFrom, if_neg hbracket]
      by_cases hpart : isNamePart c = true
      · have hlater : ∀ reversed, targetsFrom (.name reversed) s = targets s :=
          fun _ => ih fun hends => h (hends.cons hpart)
        rw [if_pos hpart, hlater, hlater]
        split <;> rfl
      · have hstart : ¬ isNameStart c = true := mt isNamePart_of_isNameStart hpart
        rw [if_neg hpart, if_neg hstart]
        split
        · exact targetsFrom_gap_of_not fun hopened => h (hopened.cons ‹_›).endsAsCall
        · rfl

theorem map_findFrom (before : Option Char) (offset skip : Nat) (s : Chars) :
    (call.findFrom before offset skip s).map (·.get 1) = targets (s.drop skip) := by
  fun_induction findFrom call before offset skip s with
  | case1 before offset skip => rw [List.drop_nil]; rfl
  | case2 before offset skip c rest ih => exact ih
  | case3 before offset c rest found hfound ih =>
      obtain ⟨hc, name, _, rfl, hname, gap, tail, rfl, hgap⟩ := endsAsCall_of_matchAt hfound
      rw [matchAt_call hc hname hgap, Option.some.injEq] at hfound
      subst hfound
      have htail : (name ++ (gap ++ '(' :: tail)).drop (offset + 1 + name.length + gap.length + 1 - offset - 1) =
          tail := by
        rw [show offset + 1 + name.length + gap.length + 1 - offset - 1 = name.length + (gap.length + 1) by omega,
          ← List.drop_drop, List.drop_left, ← List.drop_drop, List.drop_left, List.drop_one, List.tail_cons]
      rw [List.map_cons, ih, htail, List.drop_zero, targets_cons, if_pos hc, targetsFrom_name hname hgap]
      rfl
  | case4 before offset c rest hnone ih =>
      rw [ih, List.drop_zero, List.drop_zero, targets_cons]
      split
      · refine (targetsFrom_name_of_not fun hends => ?_).symm
        obtain ⟨name, _, rfl, hname, gap, tail, rfl, hgap⟩ := hends
        rw [matchAt_call ‹_› hname hgap] at hnone
        cases hnone
      · rfl

/-- The call targets of a text are what the pattern of a call captures in it. -/
theorem captured_call (s : Chars) : Symbols.captured call s = targets s :=
  (List.map_eq_map_iff.mpr fun _ _ => rfl).trans (map_findFrom none 0 0 s)

end SourceIndex.Calls
