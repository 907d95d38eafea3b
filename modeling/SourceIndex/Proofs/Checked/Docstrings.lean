import SourceIndex.Entity.Docstring
import SourceIndex.Proofs.Checked.Truncation
import SourceIndex.Proofs.Text.Distinct

/-! Docstrings by line numbers. The search for a comment goes up by numbers from the line above a declaration, that
for the start of a block goes up from the end of the block, and that for the end of a quoted block goes down from
its start. All of them stay within the file, the parts that they take out of it start before they end, and the
first three bytes of a quoted line are whole characters; what they find is the docstring. -/

namespace SourceIndex.Checked
open Text Docstring
open Step (ok_bind)

/-- The first of some line numbers whose line has a property. -/
def firstOf (p : Chars → Bool) (lines : List Chars) : List Nat → Checked (Option Nat)
  | [] => .ok none
  | i :: rest => do if p (← item lines i) then return some i else firstOf p lines rest

/-- The lines of a block that ends on line `last`, from the nearest line that opens it, `first` or one above. -/
def blockBefore (lines : List Chars) (last first : Nat) (opens : Chars → Bool) : Checked (Option (List Chars)) := do
  let floor := last - blockReach
  match ← firstOf (fun line => opens (trim line)) lines (List.range' floor (first + 1 - floor)).reverse with
  | some j => return some ((← slice lines j last).map trim)
  | none => return none

/-- The quoted block that line `i` ends, which is `line` when it is trimmed. -/
def quotedBlock (lines : List Chars) (i : Nat) (quote line : Chars) : Checked (Option (List Chars)) :=
  if 6 ≤ byteLength line && quote.isPrefixOf line then .ok (some [line])
  else if 0 < i then do blockBefore lines i (← minus i 1) (containsText quote ·)
  else .ok none

/-- The comment lines above line `i` and not above line `floor`, in at most `fuel` rounds. -/
def commentAbove (lines : List Chars) (floor : Nat) : Nat → Nat → Checked (List Chars)
  | 0, _ => .error .endless
  | fuel + 1, i =>
    if floor < i then do
      let i ← minus i 1
      let line := trim (← item lines i)
      if line.isEmpty then commentAbove lines floor fuel i
      else if "*/".toList.isSuffixOf line then
        return (← blockBefore lines i i ("/*".toList.isPrefixOf ·)).getD []
      else
        match tripleQuotes.find? (·.isSuffixOf line) with
        | some quote => return (← quotedBlock lines i quote line).getD []
        | none => if isLineComment line then return (← commentAbove lines floor fuel i) ++ [line] else return []
    else return []

/-- The docstring above the declaration on line `start`. -/
def docAbove (lines : List Chars) (start : Nat) : Checked (Option Chars) := do
  return ofLines? (← commentAbove lines (start - reach) (reach + 1) (min start lines.length))

/-- Line `line`, trimmed, ends the quoted block that it starts. -/
def closesQuote (quote line : Chars) : Checked Bool :=
  if 6 ≤ byteLength line then do return containsText quote (← textFrom line 3) else return false

/-- The lines from line `start` down to the next one that holds the quote. -/
def quotedFrom (lines : List Chars) (start : Nat) (quote : Chars) : Checked (Option (List Chars)) := do
  let limit := min (start + bodyReach) (lines.length - 1)
  match ← firstOf (containsText quote) lines (List.range' (start + 1) (limit - start)) with
  | some j => return some (← slice lines start j)
  | none => return none

/-- The docstring at the start of the body whose header ends on line `header`. -/
def docInBody (lines : List Chars) (header : Nat) : Checked (Option Chars) :=
  match ((lines.drop (header + 1)).zipIdx (header + 1)).find? (fun numbered => !(trim numbered.1).isEmpty) with
  | none => return none
  | some (line, start) =>
    match tripleQuotes.find? (·.isPrefixOf (trim line)) with
    | none => return none
    | some quote => do
      if ← closesQuote quote (trim line) then return ofLines? [trim line]
      else return (← quotedFrom lines start quote).bind fun block => ofLines? (block.map trim)

/-- The line with a number; empty where there is none. -/
def lineAt (lines : List Chars) (i : Nat) : Chars := lines[i]?.getD []

section
variable {lines : List Chars}

theorem getElem?_lineAt {i : Nat} (h : i < lines.length) : lines[i]? = some (lineAt lines i) := by
  rw [lineAt, List.getElem?_eq_getElem h]
  rfl

theorem firstOf_eq (p : Chars → Bool) {numbers : List Nat} (h : ∀ i ∈ numbers, i < lines.length) :
    firstOf p lines numbers = .ok (numbers.find? fun i => p (lineAt lines i)) := by
  induction numbers with
  | nil => rfl
  | cons i rest ih =>
      rw [List.forall_mem_cons] at h
      rw [firstOf, item_of_some (getElem?_lineAt h.1), ok_bind, List.find?_cons, ih h.2]
      cases p (lineAt lines i) <;> rfl

/-! ### Blocks above a line -/

/-- A part of a file that ends one line further down has this line at its end. -/
theorem drop_take_add_one {i n : Nat} (hi : i ≤ n) (h : n < lines.length) :
    (lines.take (n + 1)).drop i = (lines.take n).drop i ++ [lineAt lines n] := by
  rw [List.take_add_one, getElem?_lineAt h, Option.toList_some, List.drop_append_of_le_length]
  rw [List.length_take]
  omega

/-- The search for the start of a block, upwards, is one for the last line number that opens it. -/
theorem blockUpTo?_eq_find (opens : Chars → Bool) {floor n : Nat} (h : floor + n ≤ lines.length) :
    blockUpTo? opens ((lines.take (floor + n)).drop floor).reverse =
      ((List.range' floor n).reverse.find? fun j => opens (trim (lineAt lines j))).map
        fun j => ((lines.take (floor + n)).drop j).map trim := by
  induction n with
  | zero => simp [blockUpTo?]
  | succ n ih =>
      -- Going up, the line that is looked at first is the last one of the part.
      have hlast : floor + n < lines.length := h
      rw [← Nat.add_assoc, drop_take_add_one (Nat.le_add_right floor n) hlast, List.reverse_append,
        List.reverse_singleton, List.singleton_append, blockUpTo?, List.range'_concat, Nat.one_mul,
        List.reverse_append, List.reverse_singleton, List.singleton_append, List.find?_cons]
      cases opens (trim (lineAt lines (floor + n))) with
      | true =>
          simp only [if_true, Option.map_some, drop_take_add_one (Nat.le_refl _) hlast]
          rw [List.drop_take_self, List.nil_append, List.map_singleton]
      | false =>
          simp only [Bool.false_eq_true, if_false]
          rw [ih (Nat.le_of_lt hlast), Option.map_map]
          refine Option.map_congr fun j hj => ?_
          have hmem := List.mem_reverse.mp (List.mem_of_find?_eq_some hj)
          rw [List.mem_range'_1] at hmem
          rw [Function.comp_apply, drop_take_add_one (Nat.le_of_lt hmem.2) hlast, List.map_append,
            List.map_singleton]

/-- The search for a block by line numbers finds it, with the lines from `first` down to its end. -/
theorem blockBefore_eq {last first : Nat} (opens : Chars → Bool) (hfirst : first ≤ last)
    (hlast : last < lines.length) (hfloor : last - blockReach ≤ first + 1) :
    blockBefore lines last first opens =
      .ok ((blockUpTo? opens ((lines.take (first + 1)).drop (last - blockReach)).reverse).map
        (· ++ ((lines.take (last + 1)).drop (first + 1)).map trim)) := by
  obtain ⟨count, hcount⟩ : ∃ count, last - blockReach + count = first + 1 := Nat.le.dest hfloor
  have hdiff : first + 1 - (last - blockReach) = count := by omega
  have hnumbers : ∀ j ∈ (List.range' (last - blockReach) count).reverse, j ≤ first := by
    intro j hj
    rw [List.mem_reverse, List.mem_range'_1] at hj
    omega
  have hsearch := blockUpTo?_eq_find opens (show last - blockReach + count ≤ lines.length by omega)
  rw [hcount] at hsearch
  rw [blockBefore, hdiff, firstOf_eq (fun line => opens (trim line)) fun j hj =>
    Nat.lt_of_le_of_lt (Nat.le_trans (hnumbers j hj) hfirst) hlast, ok_bind, hsearch]
  cases hfound : (List.range' (last - blockReach) count).reverse.find? fun j => opens (trim (lineAt lines j)) with
  | none => rfl
  | some j =>
      have hj := hnumbers j (List.mem_of_find?_eq_some hfound)
      have hsplit : (lines.take (last + 1)).drop j =
          (lines.take (first + 1)).drop j ++ (lines.take (last + 1)).drop (first + 1) := by
        conv_lhs => rw [← List.take_append_drop (first + 1) (lines.take (last + 1)), List.take_take,
          Nat.min_eq_left (Nat.succ_le_succ hfirst)]
        rw [List.drop_append_of_le_length]
        rw [List.length_take]
        omega
      simp only [Option.map_some]
      rw [slice_of_le (by omega) hlast, ok_bind, hsplit, List.map_append]
      rfl

theorem take_reverse_take {i : Nat} (hi : i ≤ lines.length) (count : Nat) :
    (lines.take i).reverse.take count = ((lines.take i).drop (i - count)).reverse := by
  rw [List.take_reverse, List.length_take, Nat.min_eq_left hi]

theorem reverse_take_add_one {i : Nat} (hi : i < lines.length) :
    (lines.take (i + 1)).reverse = lineAt lines i :: (lines.take i).reverse := by
  rw [List.take_add_one, getElem?_lineAt hi, Option.toList_some, List.reverse_append]
  rfl

/-- The block comment that ends on a line is found by line numbers. -/
theorem blockBefore_comment {i : Nat} (hi : i < lines.length) :
    blockBefore lines i i ("/*".toList.isPrefixOf ·) =
      .ok (commentBlock? (trim (lineAt lines i)) (lines.take i).reverse) := by
  have hempty : (lines.take (i + 1)).drop (i + 1) = [] := List.drop_eq_nil_of_le (by simp)
  have htrim : ∀ above, blockUpTo? ("/*".toList.isPrefixOf ·) (trim (lineAt lines i) :: above) =
      blockUpTo? ("/*".toList.isPrefixOf ·) (lineAt lines i :: above) := fun above => by
    simp only [blockUpTo?, trim_trim]
  rw [blockBefore_eq _ (Nat.le_refl i) hi (by omega), commentBlock?, htrim, take_reverse_take (Nat.le_of_lt hi),
    drop_take_add_one (Nat.sub_le i blockReach) hi, List.reverse_append, hempty]
  simp

/-- The block above a line that ends a quoted block is found by line numbers. -/
theorem blockBefore_quoted {i : Nat} (hi : i + 1 < lines.length) (quote : Chars) :
    blockBefore lines (i + 1) i (containsText quote ·) =
      .ok ((blockUpTo? (containsText quote ·) ((lines.take (i + 1)).reverse.take blockReach)).map
        (· ++ [trim (lineAt lines (i + 1))])) := by
  rw [blockBefore_eq _ (Nat.le_add_right i 1) hi (by omega), take_reverse_take (Nat.le_of_lt hi),
    drop_take_add_one (Nat.le_refl (i + 1)) hi, List.drop_take_self, List.nil_append, List.map_singleton]

/-! ### Quotes -/

theorem of_mem_tripleQuotes {quote : Chars} (h : quote ∈ tripleQuotes) :
    quote.length = 3 ∧ byteLength quote = 3 := by
  have hall : ∀ quote ∈ tripleQuotes, quote.length = 3 ∧ byteLength quote = 3 := by decide
  exact hall quote h

/-- A line that a quote starts and ends has six bytes exactly if it has six characters: if it is shorter, all of
its characters are quotes. -/
theorem six_le_byteLength_iff {quote line : Chars} (hquote : quote ∈ tripleQuotes) (hstart : quote <+: line)
    (hend : quote <:+ line) : 6 ≤ byteLength line ↔ 6 ≤ line.length := by
  obtain ⟨hlength, hbytes⟩ := of_mem_tripleQuotes hquote
  constructor
  · intro h
    obtain ⟨rest, rfl⟩ := hstart
    rw [byteLength_append] at h
    rw [List.length_append]
    by_cases hshort : rest.length ≤ quote.length
    · obtain ⟨before, hbefore⟩ := List.suffix_of_suffix_length_le (List.suffix_append quote rest) hend hshort
      have hle := length_le_byteLength before
      have hsum : byteLength before + byteLength rest = byteLength quote := by rw [← byteLength_append, hbefore]
      have hcount : before.length + rest.length = quote.length := by rw [← List.length_append, hbefore]
      omega
    · omega
  · exact fun h => Nat.le_trans h (length_le_byteLength line)

theorem quotedBlock_eq {i : Nat} (hi : i < lines.length) {quote : Chars} (hquote : quote ∈ tripleQuotes)
    (hend : quote <:+ trim (lineAt lines i)) :
    quotedBlock lines i quote (trim (lineAt lines i)) =
      .ok (quotedBlock? quote (trim (lineAt lines i)) (lines.take i).reverse) := by
  have hwhole : (6 ≤ byteLength (trim (lineAt lines i)) && quote.isPrefixOf (trim (lineAt lines i))) =
      (6 ≤ (trim (lineAt lines i)).length && quote.isPrefixOf (trim (lineAt lines i))) := by
    cases hstart : quote.isPrefixOf (trim (lineAt lines i)) with
    | false => simp
    | true => simp [six_le_byteLength_iff hquote (List.isPrefixOf_iff_prefix.mp hstart) hend]
  rw [quotedBlock, quotedBlock?, hwhole]
  split
  · rfl
  · cases i with
    | zero => rfl
    | succ i => rw [if_pos (Nat.succ_pos i), minus_of_le (Nat.le_add_left 1 i), ok_bind, Nat.add_sub_cancel,
        blockBefore_quoted hi]

/-! ### Comments above a line -/

/-- The search for a comment by line numbers finds it, and comes to its end above the last line it looks at. -/
theorem commentAbove_eq {floor fuel i : Nat} (hfuel : i - floor < fuel) (hi : i ≤ lines.length) :
    commentAbove lines floor fuel i = .ok (Docstring.commentAbove (i - floor) (lines.take i).reverse) := by
  -- The induction is on the rounds that are left; each of them goes up by one line.
  induction fuel generalizing i with
  | zero => exact absurd hfuel (Nat.not_lt_zero _)
  | succ fuel ih =>
      rw [commentAbove]
      by_cases hfloor : floor < i
      · obtain ⟨k, rfl⟩ := Nat.exists_eq_succ_of_ne_zero (Nat.ne_of_gt (Nat.zero_lt_of_lt hfloor))
        have hcount : k + 1 - floor = k - floor + 1 := by omega
        have hnext := ih (i := k) (by omega) (Nat.le_of_succ_le hi)
        rw [if_pos hfloor, minus_of_le (Nat.le_add_left 1 k), ok_bind, Nat.add_sub_cancel,
          item_of_some (getElem?_lineAt hi), ok_bind, hcount, reverse_take_add_one hi, Docstring.commentAbove]
        simp only [hnext, blockBefore_comment hi]
        split
        · rfl
        · split
          · rfl
          · cases hfind : tripleQuotes.find? (·.isSuffixOf (trim (lineAt lines k))) with
            | none =>
                simp only
                split <;> rfl
            | some quote =>
                have hend := List.find?_some hfind
                simp only [quotedBlock_eq hi (List.mem_of_find?_eq_some hfind) (List.isSuffixOf_iff_suffix.mp hend)]
                rfl
      · rw [if_neg hfloor, Nat.sub_eq_zero_of_le (Nat.le_of_not_lt hfloor), Docstring.commentAbove]
        rfl

/-- The docstring above a declaration is found by line numbers. -/
theorem docAbove_eq (lines : List Chars) (start : Nat) : docAbove lines start = .ok (before? lines start) := by
  have htake : lines.take (min start lines.length) = lines.take start := by
    rw [← List.take_take, List.take_length]
  rw [docAbove, commentAbove_eq (by omega) (Nat.min_le_right start lines.length), ok_bind, htake]
  rfl

/-! ### Docstrings in bodies -/

/-- Behind the quote that a line starts with stands a whole character or nothing. -/
theorem closesQuote_eq {quote line : Chars} (hquote : quote ∈ tripleQuotes) (hstart : quote <+: line) :
    closesQuote quote line = .ok (containsText quote (line.drop 3)) := by
  obtain ⟨hlength, hbytes⟩ := of_mem_tripleQuotes hquote
  obtain ⟨rest, rfl⟩ := hstart
  have hrest : textFrom (quote ++ rest) 3 = .ok rest := by rw [← hbytes, textFrom_append]
  rw [closesQuote, hrest, List.drop_left' hlength]
  split
  · rfl
  · have hnone : containsText quote rest = false := Bool.eq_false_iff.mpr fun hcontains => by
      have hle := byteLength_le_of_containsText hcontains
      rw [byteLength_append] at *
      omega
    rw [hnone]
    rfl

/-- The first line with text, with its number, is the one up to which blank lines are dropped. -/
theorem find?_zipIdx_cases (ls : List Chars) (n : Nat) :
    ((ls.zipIdx n).find? (fun numbered => !(trim numbered.1).isEmpty) = none ∧ ls.dropWhile isBlankText = []) ∨
      ∃ k line rest, (ls.zipIdx n).find? (fun numbered => !(trim numbered.1).isEmpty) = some (line, n + k) ∧
        ls.dropWhile isBlankText = line :: rest ∧ ls.drop k = line :: rest := by
  induction ls generalizing n with
  | nil => exact Or.inl ⟨rfl, rfl⟩
  | cons first rest ih =>
      rw [List.zipIdx_cons, List.find?_cons, List.dropWhile_cons, isEmpty_trim]
      cases isBlankText first with
      | false => exact Or.inr ⟨0, first, rest, rfl, rfl, rfl⟩
      | true =>
          rcases ih (n + 1) with hnone | ⟨k, line, below, hfind, hdrop, hat⟩
          · exact Or.inl hnone
          · refine Or.inr ⟨k + 1, line, below, ?_, hdrop, hat⟩
            rw [show n + (k + 1) = n + 1 + k by omega]
            exact hfind

/-- A part of a file that starts one line further up has this line at its start. -/
theorem drop_take_of_le {start j : Nat} (hstart : start < lines.length) (hj : start ≤ j) :
    (lines.take (j + 1)).drop start = lineAt lines start :: (lines.take (j + 1)).drop (start + 1) := by
  rw [List.drop_eq_getElem?_toList_append, List.getElem?_take_of_lt (Nat.lt_succ_of_le hj),
    getElem?_lineAt hstart]
  rfl

/-- The search for the end of a quoted block is one for the first line number that holds the quote. -/
theorem linesToQuote?_eq_find (quote : Chars) {start n : Nat} (h : start + n ≤ lines.length) :
    linesToQuote? quote ((lines.drop start).take n) =
      ((List.range' start n).find? fun j => containsText quote (lineAt lines j)).map
        fun j => (lines.take (j + 1)).drop start := by
  induction n generalizing start with
  | zero => rw [List.take_zero]; rfl
  | succ n ih =>
      have hstart : start < lines.length := by omega
      have hline := getElem?_lineAt hstart
      rw [List.drop_eq_getElem?_toList_append, hline, Option.toList_some, List.singleton_append,
        List.take_succ_cons, linesToQuote?, List.range'_succ, List.find?_cons]
      cases containsText quote (lineAt lines start) with
      | true =>
          simp only [if_true, Option.map_some, drop_take_add_one (Nat.le_refl start) hstart]
          rw [List.drop_take_self, List.nil_append]
      | false =>
          simp only [Bool.false_eq_true, if_false]
          rw [ih (by omega), Option.map_map]
          refine Option.map_congr fun j hj => ?_
          have hmem := List.mem_of_find?_eq_some hj
          rw [List.mem_range'_1] at hmem
          rw [Function.comp_apply, drop_take_of_le hstart (by omega)]

/-- The rest of a quoted block is found by line numbers. -/
theorem quotedFrom_eq {start : Nat} {line : Chars} {rest : List Chars} (hat : lines.drop start = line :: rest)
    (quote : Chars) :
    quotedFrom lines start quote = .ok ((linesToQuote? quote (rest.take bodyReach)).map (line :: ·)) := by
  have hlength : start + (rest.length + 1) = lines.length := by
    have hcount := congrArg List.length hat
    rw [List.length_drop, List.length_cons] at hcount
    omega
  have hline : lineAt lines start = line := by
    rw [lineAt, ← List.head?_drop, hat]
    rfl
  obtain ⟨count, hcount⟩ : ∃ count, min (start + bodyReach) (lines.length - 1) - start = count := ⟨_, rfl⟩
  have hrest : rest.take bodyReach = (lines.drop (start + 1)).take count := by
    rw [← List.tail_drop, hat, List.tail_cons, List.take_eq_take_iff]
    omega
  have hnumbers : ∀ j ∈ List.range' (start + 1) count, start ≤ j ∧ j < lines.length := by
    intro j hj
    rw [List.mem_range'_1] at hj
    omega
  rw [quotedFrom, hcount, firstOf_eq _ fun j hj => (hnumbers j hj).2, ok_bind, hrest,
    linesToQuote?_eq_find quote (by omega)]
  cases hfound : (List.range' (start + 1) count).find? fun j => containsText quote (lineAt lines j) with
  | none => rfl
  | some j =>
      obtain ⟨hle, hlt⟩ := hnumbers j (List.mem_of_find?_eq_some hfound)
      simp only [Option.map_some]
      rw [slice_of_le (Nat.le_succ_of_le hle) hlt, ok_bind, drop_take_of_le (by omega) hle, hline]
      rfl

/-- The docstring in a body is found by line numbers. -/
theorem docInBody_eq (lines : List Chars) (header : Nat) : docInBody lines header = .ok (inBody? lines header) := by
  rw [docInBody, inBody?]
  rcases find?_zipIdx_cases (lines.drop (header + 1)) (header + 1) with
    ⟨hfind, hdrop⟩ | ⟨k, line, rest, hfind, hdrop, hat⟩
  · rw [hfind, hdrop]
    rfl
  · rw [List.drop_drop] at hat
    rw [hfind, hdrop]
    generalize header + 1 + k = start at *
    simp only
    cases hquote : tripleQuotes.find? (·.isPrefixOf (trim line)) with
    | none => rfl
    | some quote =>
        have hstart := List.find?_some hquote
        simp only
        rw [closesQuote_eq (List.mem_of_find?_eq_some hquote) (List.isPrefixOf_iff_prefix.mp hstart), ok_bind,
          quotedFrom_eq hat, ok_bind]
        split
        · rfl
        · cases linesToQuote? quote (rest.take bodyReach) with
          | none => rfl
          | some block =>
              simp only [Option.map_some, Option.bind_some, List.map_cons]
              rfl

end

end SourceIndex.Checked
