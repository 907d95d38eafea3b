import SourceIndex.Proofs.Checked.Access
import SourceIndex.Proofs.Text.Cut

/-! Cutting a text by byte offsets. From the budget the search goes back to the end of a character, and the
structural boundaries are found by the offsets of three patterns; each place where the text is cut is the end of a
character, and the last of the offsets that the patterns give is that of the last boundary. So no cut goes wrong,
whatever the text and the budget, and the result is the text cut to the budget. -/

namespace SourceIndex.Checked
open Text
open Step (ok_bind)

/-- A character of the text ends at the byte offset, or the text starts there. -/
def isCharEnd : Chars → Nat → Bool
  | _, 0 => true
  | [], _ + 1 => false
  | c :: rest, n + 1 => c.utf8Size ≤ n + 1 && isCharEnd rest (n + 1 - c.utf8Size)

/-- The text before a byte offset. -/
def textTo : Chars → Nat → Checked Chars
  | _, 0 => .ok []
  | [], _ + 1 => .error .cut
  | c :: rest, n + 1 =>
    if c.utf8Size ≤ n + 1 then (c :: ·) <$> textTo rest (n + 1 - c.utf8Size) else .error .cut

/-- The text from a byte offset on. -/
def textFrom : Chars → Nat → Checked Chars
  | s, 0 => .ok s
  | [], _ + 1 => .error .cut
  | c :: rest, n + 1 => if c.utf8Size ≤ n + 1 then textFrom rest (n + 1 - c.utf8Size) else .error .cut

/-- The byte offset of the last place that starts with `part`. -/
def lastStart? (part : Chars) : Chars → Option Nat
  | [] => if part.isEmpty then some 0 else none
  | c :: rest =>
    match lastStart? part rest with
    | some i => some (c.utf8Size + i)
    | none => if part.isPrefixOf (c :: rest) then some 0 else none

/-- The offsets at which a cut keeps the structure: behind the last brace that starts a line, behind the last
semicolon that ends one, and before the last line feed. -/
def structuralEnds (s : Chars) : List Nat :=
  ((lastStart? ['\n', '}'] s).map (· + 2)).toList ++ ((lastStart? [';', '\n'] s).map (· + 1)).toList ++
    (lastStart? ['\n'] s).toList

/-- Go back from a byte offset to the end of a character, in at most `fuel` rounds. -/
def backToCharEnd (s : Chars) : Nat → Nat → Checked Nat
  | 0, _ => .error .endless
  | fuel + 1, cut =>
    if 0 < cut && !isCharEnd s cut then do backToCharEnd s fuel (← minus cut 1) else .ok cut

/-- The offset at which a text is cut whose window ends at `cut`. -/
def stopAt (budget cut : Nat) (window : Chars) : Nat :=
  match (structuralEnds window).max? with
  | some e => if budget ≤ e * 2 then e else cut
  | none => cut

/-- The text cut to a budget, by offsets. -/
def truncate (budget : Nat) (s : Chars) : Checked Chars :=
  if byteLength s ≤ budget then .ok s
  else do
    let cut ← backToCharEnd s (budget + 1) budget
    let window ← textTo s cut
    return (← textTo s (stopAt budget cut window)) ++ truncationMarker

/-! ### Ends of characters -/

/-- The text before an offset is a beginning of so many bytes, and there is none inside a character. -/
theorem textTo_eq_ok_iff {s before : Chars} {n : Nat} :
    textTo s n = .ok before ↔ before <+: s ∧ byteLength before = n := by
  induction s generalizing n before with
  | nil => cases n <;> cases before <;> simp [textTo, byteLength]
  | cons c rest ih =>
      cases n with
      | zero =>
          rw [textTo, Except.ok.injEq]
          constructor
          · rintro rfl
            exact ⟨List.nil_prefix, rfl⟩
          · rintro ⟨_, hnone⟩
            by_contra hne
            exact absurd hnone (Nat.ne_of_gt (byteLength_pos (Ne.symm hne)))
      | succ n =>
          rw [textTo]
          constructor
          · intro h
            split at h
            · cases hlater : textTo rest (n + 1 - c.utf8Size) with
              | error fault =>
                  rw [hlater] at h
                  cases h
              | ok later =>
                  rw [hlater] at h
                  cases h
                  obtain ⟨hbegin, hbytes⟩ := ih.mp hlater
                  refine ⟨List.cons_prefix_cons.mpr ⟨rfl, hbegin⟩, ?_⟩
                  rw [byteLength]
                  omega
            · cases h
          · rintro ⟨hbegin, hbytes⟩
            cases before with
            | nil => cases hbytes
            | cons d later =>
                obtain ⟨rfl, hlater⟩ := List.cons_prefix_cons.mp hbegin
                rw [byteLength] at hbytes
                rw [if_pos (by omega), ih.mpr ⟨hlater, by omega⟩]
                rfl

/-- The first of the two bytes of a character is no text. -/
example : textTo ['é', 'x'] 1 = .error .cut := rfl

theorem textFrom_append (s t : Chars) : textFrom (s ++ t) (byteLength s) = .ok t := by
  induction s with
  | nil => cases t <;> rfl
  | cons c rest ih =>
      obtain ⟨n, hn⟩ := Nat.exists_eq_succ_of_ne_zero (Nat.ne_of_gt (byteLength_pos (List.cons_ne_nil c rest)))
      have hsize : byteLength (c :: rest) = c.utf8Size + byteLength rest := rfl
      have hrest : n + 1 - c.utf8Size = byteLength rest := by omega
      rw [hn, List.cons_append, textFrom, if_pos (by omega), hrest, ih]

/-- A character ends at an offset exactly if a window of this size leaves nothing of it. -/
theorem isCharEnd_iff (s : Chars) (cut : Nat) : isCharEnd s cut = true ↔ byteLength (takeBytes cut s) = cut := by
  induction s generalizing cut with
  | nil => cases cut <;> simp [isCharEnd, takeBytes, byteLength]
  | cons c rest ih =>
      cases cut with
      | zero => simp [isCharEnd, takeBytes_zero, byteLength]
      | succ n =>
          rw [isCharEnd, takeBytes]
          by_cases hsize : c.utf8Size ≤ n + 1
          · rw [if_pos hsize, byteLength, Bool.and_eq_true, ih]
            simp only [decide_eq_true_eq]
            omega
          · simp [hsize, byteLength]

/-- Inside a character a window keeps no more than one that is smaller by a byte. -/
theorem takeBytes_pred {s : Chars} {cut : Nat} (h : byteLength (takeBytes (cut + 1) s) ≠ cut + 1) :
    takeBytes (cut + 1) s = takeBytes cut s := by
  have hlarge := isWindow_takeBytes (cut + 1) s
  have hsmall := isWindow_takeBytes cut s
  have hle := hlarge.le_budget
  have hbegin := hsmall.longest _ hlarge.isPrefix (by omega)
  exact eq_of_prefix_of_byteLength_le hbegin
    (prefix_byteLength_le (hlarge.longest _ hsmall.isPrefix (Nat.le_succ_of_le hsmall.le_budget)))

/-- The search for the end of a character ends at that of the window. -/
theorem backToCharEnd_eq (s : Chars) {fuel cut : Nat} (h : cut < fuel) :
    backToCharEnd s fuel cut = .ok (byteLength (takeBytes cut s)) := by
  induction fuel generalizing cut with
  | zero => exact absurd h (Nat.not_lt_zero _)
  | succ fuel ih =>
      rw [backToCharEnd]
      cases cut with
      | zero => simp [takeBytes_zero, byteLength]
      | succ cut =>
          by_cases hend : isCharEnd s (cut + 1) = true
          · simp [hend, (isCharEnd_iff s (cut + 1)).mp hend]
          · rw [if_pos (by simpa using hend), minus_of_le (Nat.le_add_left 1 cut), ok_bind, Nat.add_sub_cancel,
              ih (Nat.lt_of_succ_lt_succ h), takeBytes_pred (fun heq => hend ((isCharEnd_iff s _).mpr heq))]

/-! ### Structural ends -/

theorem eq_of_lastStart? {part s : Chars} {i : Nat} (h : lastStart? part s = some i) :
    ∃ before after, s = before ++ part ++ after ∧ i = byteLength before := by
  induction s generalizing i with
  | nil =>
      rw [lastStart?] at h
      split at h
      · cases h
        exact ⟨[], [], by simp_all, rfl⟩
      · cases h
  | cons c rest ih =>
      rw [lastStart?] at h
      split at h
      · cases h
        obtain ⟨before, after, rfl, rfl⟩ := ih ‹_›
        exact ⟨c :: before, after, rfl, rfl⟩
      · split at h
        · cases h
          obtain ⟨after, hafter⟩ := List.isPrefixOf_iff_prefix.mp ‹_›
          exact ⟨[], after, hafter.symm, rfl⟩
        · cases h

/-- No place starts with a part behind the last one that does. -/
theorem exists_lastStart? (before part after : Chars) :
    ∃ i, lastStart? part (before ++ (part ++ after)) = some i ∧ byteLength before ≤ i := by
  induction before with
  | nil =>
      rw [List.nil_append]
      cases hs : part ++ after with
      | nil => exact ⟨0, by simp_all [lastStart?], Nat.le_refl 0⟩
      | cons c rest =>
          have hbegin : part.isPrefixOf (c :: rest) = true := List.isPrefixOf_iff_prefix.mpr ⟨after, hs⟩
          cases hrest : lastStart? part rest with
          | some i => exact ⟨c.utf8Size + i, by rw [lastStart?, hrest], Nat.zero_le _⟩
          | none => exact ⟨0, by rw [lastStart?, hrest, if_pos hbegin], Nat.le_refl 0⟩
  | cons c before ih =>
      obtain ⟨i, hi, hle⟩ := ih
      refine ⟨c.utf8Size + i, by rw [List.cons_append, lastStart?, hi], ?_⟩
      rw [byteLength]
      omega

theorem mem_structuralEnds {s : Chars} {e : Nat} :
    e ∈ structuralEnds s ↔ (∃ i, lastStart? ['\n', '}'] s = some i ∧ i + 2 = e) ∨
      (∃ i, lastStart? [';', '\n'] s = some i ∧ i + 1 = e) ∨ lastStart? ['\n'] s = some e := by
  simp only [structuralEnds, List.mem_append, Option.mem_toList, Option.map_eq_some_iff, or_assoc]

/-- A structural end is the end of a boundary. -/
theorem isBoundary_of_mem_structuralEnds {s : Chars} {e : Nat} (h : e ∈ structuralEnds s) :
    ∃ kept, IsBoundary s kept ∧ e = byteLength kept := by
  rcases mem_structuralEnds.mp h with ⟨i, hi, rfl⟩ | ⟨i, hi, rfl⟩ | hfeed
  · obtain ⟨before, after, rfl, rfl⟩ := eq_of_lastStart? hi
    refine ⟨before ++ ['\n', '}'], ⟨⟨after, rfl⟩, Or.inl ⟨before, rfl⟩⟩, ?_⟩
    rw [byteLength_append]
    rfl
  · obtain ⟨before, after, rfl, rfl⟩ := eq_of_lastStart? hi
    refine ⟨before ++ [';'], ⟨⟨'\n' :: after, by simp⟩, Or.inr ⟨after, by simp⟩⟩, ?_⟩
    rw [byteLength_append]
    rfl
  · obtain ⟨before, after, rfl, rfl⟩ := eq_of_lastStart? hfeed
    exact ⟨before, ⟨⟨'\n' :: after, by simp⟩, Or.inr ⟨after, rfl⟩⟩, rfl⟩

/-- No boundary ends behind all structural ends. -/
theorem exists_structuralEnd {s kept : Chars} (h : IsBoundary s kept) :
    ∃ e ∈ structuralEnds s, byteLength kept ≤ e := by
  obtain ⟨⟨rest, rfl⟩, ⟨before, rfl⟩ | ⟨after, hfeed⟩⟩ := h
  · obtain ⟨i, hi, hle⟩ := exists_lastStart? before ['\n', '}'] rest
    rw [← List.append_assoc] at hi
    refine ⟨i + 2, mem_structuralEnds.mpr (Or.inl ⟨i, hi, rfl⟩), ?_⟩
    rw [byteLength_append]
    exact Nat.add_le_add_right hle 2
  · obtain ⟨i, hi, hle⟩ := exists_lastStart? kept ['\n'] after
    rw [← List.append_assoc, hfeed] at hi
    exact ⟨i, mem_structuralEnds.mpr (Or.inr (Or.inr hi)), hle⟩

/-- A structural end stands in the text, so that twice of it is at most twice the length of the text. -/
theorem structuralEnd_le {s : Chars} {e : Nat} (h : e ∈ structuralEnds s) : e ≤ byteLength s := by
  obtain ⟨kept, hkept, rfl⟩ := isBoundary_of_mem_structuralEnds h
  exact prefix_byteLength_le hkept.1

/-- The last structural end is that of the last boundary. -/
theorem max?_structuralEnds (s : Chars) : (structuralEnds s).max? = (upToBoundary? s).map byteLength := by
  obtain ⟨hsome, hnone⟩ := upToBoundary?_spec s
  cases hkept : upToBoundary? s with
  | none =>
      have hempty : structuralEnds s = [] := List.eq_nil_iff_forall_not_mem.mpr fun e he => by
        obtain ⟨kept, hboundary, _⟩ := isBoundary_of_mem_structuralEnds he
        exact hnone hkept kept hboundary
      rw [hempty]
      rfl
  | some kept =>
      obtain ⟨hboundary, hlast⟩ := hsome kept hkept
      -- Every end is that of a boundary, so none is behind the last one, and one of them reaches it.
      have hle : ∀ e ∈ structuralEnds s, e ≤ byteLength kept := fun e he => by
        obtain ⟨other, hother, rfl⟩ := isBoundary_of_mem_structuralEnds he
        exact prefix_byteLength_le (hlast other hother)
      obtain ⟨e, he, hge⟩ := exists_structuralEnd hboundary
      rw [Option.map_some, Nat.le_antisymm hge (hle e he)]
      exact List.max?_eq_some_iff.mpr ⟨he, fun b hb => Nat.le_trans (hle b hb) hge⟩

theorem stopAt_window (budget : Nat) (s : Chars) :
    stopAt budget (byteLength (takeBytes budget s)) (takeBytes budget s) = byteLength (keptOf budget s) := by
  rw [stopAt, max?_structuralEnds, keptOf]
  cases upToBoundary? (takeBytes budget s) with
  | none => rfl
  | some kept =>
      simp only [Option.map_some, Nat.mul_comm (byteLength kept)]
      split
      · rfl
      · rfl

/-- No cut of a text by offsets goes wrong. -/
theorem truncate_eq (budget : Nat) (s : Chars) : truncate budget s = .ok (Text.truncate budget s) := by
  rw [truncate, Text.truncate]
  split
  · rfl
  · rw [backToCharEnd_eq s (Nat.lt_add_one budget), ok_bind,
      textTo_eq_ok_iff.mpr ⟨(isWindow_takeBytes budget s).isPrefix, rfl⟩, ok_bind, stopAt_window,
      textTo_eq_ok_iff.mpr ⟨keptOf_isPrefix budget s, rfl⟩]
    rfl

end SourceIndex.Checked
