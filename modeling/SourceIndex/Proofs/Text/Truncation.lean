import SourceIndex.Text.Truncation

/-! How long a cut text is. A part of a text takes no more bytes than the text. A cut keeps a beginning of the
text that fits into the budget, so with the marker the result exceeds the budget by the length of the marker at
most. -/

namespace SourceIndex.Text

theorem byteLength_append (s t : Chars) : byteLength (s ++ t) = byteLength s + byteLength t := by
  induction s with
  | nil => simp [byteLength]
  | cons c rest ih =>
      rw [List.cons_append, byteLength, byteLength, ih]
      omega

theorem byteLength_takeBytes_le (budget : Nat) (s : Chars) : byteLength (takeBytes budget s) ≤ budget := by
  induction s generalizing budget with
  | nil => simp [takeBytes, byteLength]
  | cons c rest ih =>
      rw [takeBytes]
      split
      · have hrest := ih (budget - c.utf8Size)
        rw [byteLength]
        omega
      · exact Nat.zero_le _

/-- The text up to a boundary is a beginning of the text. -/
theorem prefix_of_upToBoundary? {s kept : Chars} (h : upToBoundary? s = some kept) : kept <+: s := by
  induction s generalizing kept with
  | nil => cases h
  | cons c rest ih =>
      rw [upToBoundary?] at h
      split at h
      · rename_i later hlater
        cases h
        exact List.cons_prefix_cons.mpr ⟨rfl, ih hlater⟩
      · split at h
        · subst c
          cases h
          split
          · rename_i hbrace
            cases rest with
            | nil => cases hbrace
            | cons d rest =>
                cases hbrace
                exact ⟨rest, rfl⟩
          · exact List.nil_prefix
        · cases h

theorem prefix_byteLength_le {s t : Chars} (h : s <+: t) : byteLength s ≤ byteLength t := by
  obtain ⟨rest, rfl⟩ := h
  rw [byteLength_append]
  exact Nat.le_add_right _ _

theorem length_le_byteLength (s : Chars) : s.length ≤ byteLength s := by
  induction s with
  | nil => exact Nat.le_refl 0
  | cons c rest ih =>
      have := c.utf8Size_pos
      rw [List.length_cons, byteLength]
      omega

theorem byteLength_le_of_containsText {part s : Chars} (h : containsText part s = true) :
    byteLength part ≤ byteLength s := by
  induction s with
  | nil => exact Nat.le_of_eq (congrArg byteLength (List.isEmpty_iff.mp h))
  | cons c rest ih =>
      rw [containsText, Bool.or_eq_true] at h
      rcases h with hhere | hlater
      · exact prefix_byteLength_le (List.isPrefixOf_iff_prefix.mp hhere)
      · exact Nat.le_trans (ih hlater) (Nat.le_add_left _ _)

theorem byteLength_keptOf_le (budget : Nat) (s : Chars) : byteLength (keptOf budget s) ≤ budget := by
  have hwindow := byteLength_takeBytes_le budget s
  unfold keptOf
  simp only
  split
  · rename_i kept hkept
    split
    · exact Nat.le_trans (prefix_byteLength_le (prefix_of_upToBoundary? hkept)) hwindow
    · exact hwindow
  · exact hwindow

theorem byteLength_truncationMarker : byteLength truncationMarker = 16 := by decide

/-- A cut text takes the bytes of the budget and of the marker at most. -/
theorem byteLength_truncate_le (budget : Nat) (s : Chars) : byteLength (truncate budget s) ≤ budget + 16 := by
  unfold truncate
  split
  · omega
  · rw [byteLength_append, byteLength_truncationMarker]
    exact Nat.add_le_add_right (byteLength_keptOf_le budget s) 16

end SourceIndex.Text
