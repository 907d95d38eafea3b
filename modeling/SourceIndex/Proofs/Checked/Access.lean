import SourceIndex.Entity.Symbols
import SourceIndex.Proofs.Step
import SourceIndex.Proofs.Text.Matching

/-! Checked accesses. Where the search for entities is done on arrays and bytes it can go wrong at every step:
an index past the end, a part of a list that ends before it starts, a text cut inside a character, a difference
below zero, a match without the capture. Here each such step gives a fault where it goes wrong, so that a
computation without a fault has made none of them outside of its bounds. -/

namespace SourceIndex

/-- How an access goes wrong. -/
inductive Checked.Fault where
  /-- No element has the index. -/
  | index
  /-- A part of a list goes beyond the end of the list, or ends before it starts. -/
  | slice
  /-- A text is cut inside a character or beyond its end. -/
  | cut
  /-- A difference below zero. -/
  | underflow
  /-- A match has not made the capture. -/
  | capture
  /-- A loop has not come to its end. -/
  | endless
  deriving DecidableEq, Repr

/-- A value, unless an access on the way to it goes wrong. -/
abbrev Checked (α : Type) := Except Checked.Fault α

namespace Checked
open Text

section
variable {α : Type}

/-- The element at an index. -/
def item (xs : List α) (i : Nat) : Checked α :=
  match xs[i]? with
  | some x => .ok x
  | none => .error .index

/-- The elements from one index up to and including another; none if the latter is the one before. -/
def slice (xs : List α) (start stop : Nat) : Checked (List α) :=
  if start ≤ stop + 1 ∧ stop < xs.length then .ok ((xs.take (stop + 1)).drop start) else .error .slice

/-- The difference of two numbers of which the second is not larger. -/
def minus (a b : Nat) : Checked Nat := if b ≤ a then .ok (a - b) else .error .underflow

/-- A part that a match has captured. -/
def capture (captures : Pattern.Captures) (slot : Nat) : Checked Chars :=
  match captures.get? slot with
  | some part => .ok part
  | none => .error .capture

/-- Capture 1 of every match. -/
def captured (pattern : Pattern) (s : Chars) : Checked (List Chars) :=
  (pattern.findAll s).mapM (capture · 1)

theorem item_of_some {xs : List α} {i : Nat} {x : α} (h : xs[i]? = some x) : item xs i = .ok x := by
  rw [item, h]

theorem slice_of_le {xs : List α} {start stop : Nat} (hstart : start ≤ stop + 1) (hstop : stop < xs.length) :
    slice xs start stop = .ok ((xs.take (stop + 1)).drop start) :=
  if_pos ⟨hstart, hstop⟩

theorem minus_of_le {a b : Nat} (h : b ≤ a) : minus a b = .ok (a - b) := if_pos h

theorem capture_of_has {captures : Pattern.Captures} {slot : Nat} (h : captures.Has slot) :
    capture captures slot = .ok (captures.get slot) := by
  obtain ⟨part, hpart⟩ := h
  rw [capture, Pattern.Captures.get, hpart, Option.getD_some]

theorem captured_eq {pattern : Pattern} (hbinds : pattern.Binds 1 = true) (s : Chars) :
    captured pattern s = .ok (Symbols.captured pattern s) :=
  Step.mapM_ok fun _ hmem => capture_of_has (Pattern.has_of_mem_findAll hbinds hmem)

end

end Checked
end SourceIndex
