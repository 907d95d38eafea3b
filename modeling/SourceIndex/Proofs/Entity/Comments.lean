import SourceIndex.Proofs.Checked.Docstrings
import SourceIndex.Proofs.Entity.Ranges

/-! Block comments above a declaration. The search for a docstring goes up over blank lines and line comments. On a
line that ends with a closing mark it stops, and takes in all lines from the nearest one that starts with an opening
mark. It looks at the starts and ends of lines only: where a comment stands behind code, the nearest line that
starts with an opening mark can belong to another comment, and then the code between the two is taken in as well. -/

namespace SourceIndex.Docstring
open Text
open Checked (lineAt getElem?_lineAt drop_take_add_one reverse_take_add_one blockUpTo?_eq_find take_reverse_take)

/-! ### Lines that say nothing -/

theorem withoutMarks_trim (line : Chars) : withoutMarks (trim line) = withoutMarks line := by
  simp only [withoutMarks, trim_trim]

theorem withoutMarks_of_blank {line : Chars} (h : trim line = []) : withoutMarks line = [] := by
  rw [← withoutMarks_trim, h]
  decide +kernel

/-- The lines of a comment without their marks, as far as something is left of them. -/
def said (raw : List Chars) : List Chars := (raw.map withoutMarks).filter (!·.isEmpty)

theorem ofLines?_eq (raw : List Chars) : ofLines? raw = bounded? (trim (unlines (said raw))) := rfl

theorem said_append (above below : List Chars) : said (above ++ below) = said above ++ said below := by
  rw [said, List.map_append, List.filter_append]
  rfl

theorem said_map_trim (raw : List Chars) : said (raw.map trim) = said raw := by
  have hmarks : withoutMarks ∘ trim = withoutMarks := by
    funext line
    rw [Function.comp_apply, withoutMarks_trim]
  rw [said, List.map_map, hmarks, said]

theorem said_filter (raw : List Chars) : said (raw.filter fun line => !(trim line).isEmpty) = said raw := by
  induction raw with
  | nil => rfl
  | cons line rest ih =>
      rw [← List.singleton_append, said_append [line] rest, ← ih, List.filter_append, said_append]
      cases hblank : (trim line).isEmpty with
      | false => simp [hblank]
      | true =>
          have hnothing := withoutMarks_of_blank (List.isEmpty_iff.mp hblank)
          simp [hblank, said, hnothing]

/-! ### The search upwards -/

/-- The line starts with the opening mark of a block comment. -/
def opensComment (line : Chars) : Bool := "/*".toList.isPrefixOf (trim line)

/-- The line ends with the closing mark of a block comment. -/
def closesComment (line : Chars) : Bool := "*/".toList.isSuffixOf (trim line)

/-- The search goes on above a blank line and above a line comment that ends no block. -/
def passes (line : Chars) : Bool :=
  (trim line).isEmpty ||
    (!closesComment line && (tripleQuotes.find? (·.isSuffixOf (trim line))).isNone && isLineComment (trim line))

/-- The search from the declaration on line `start` stops on line `stop`, which ends with a closing mark. -/
structure StopsOn (ls : List Chars) (start stop : Nat) : Prop where
  above : stop < start
  near : start ≤ stop + reach
  closes : ∃ line, ls[stop]? = some line ∧ closesComment line = true
  passed : ∀ j line, stop < j → j < start → ls[j]? = some line → passes line = true

/-- Line `opener` is the nearest one up from line `stop` that starts with an opening mark, and it is near enough. -/
structure OpensFor (ls : List Chars) (opener stop : Nat) : Prop where
  le : opener ≤ stop
  near : stop ≤ opener + blockReach
  opens : ∃ line, ls[opener]? = some line ∧ opensComment line = true
  nearest : ∀ j line, opener < j → j ≤ stop → ls[j]? = some line → opensComment line = false

section
variable {ls : List Chars} {start stop : Nat}

theorem lineAt_of_some {i : Nat} {line : Chars} (h : ls[i]? = some line) : i < ls.length ∧ lineAt ls i = line := by
  obtain ⟨hlt, rfl⟩ := List.getElem?_eq_some_iff.mp h
  exact ⟨hlt, by rw [lineAt, h, Option.getD_some]⟩

/-- Above lines that it passes, the search takes in the block that ends on the next line, and they follow. -/
theorem commentAbove_of_passed {n i : Nat} (hi : i ≤ ls.length) (hstop : stop < i) (hn : i ≤ stop + n)
    (hcloses : closesComment (lineAt ls stop) = true) (hpassed : ∀ j, stop < j → j < i → passes (lineAt ls j) = true) :
    commentAbove n (ls.take i).reverse =
      (commentBlock? (trim (lineAt ls stop)) (ls.take stop).reverse).getD [] ++
        (((ls.take i).drop (stop + 1)).filter fun line => !(trim line).isEmpty).map trim := by
  -- The induction is on the line at which the search has arrived.
  induction i generalizing n with
  | zero => omega
  | succ i ih =>
      obtain ⟨n, rfl⟩ : ∃ m, n = m + 1 := ⟨n - 1, by omega⟩
      rw [reverse_take_add_one (by omega), commentAbove]
      by_cases hlast : stop = i
      · subst hlast
        have hmark : (trim (lineAt ls stop)).isEmpty = false := by
          cases hline : trim (lineAt ls stop) with
          | nil =>
              rw [closesComment, hline] at hcloses
              cases hcloses
          | cons => rfl
        rw [closesComment] at hcloses
        simp only [hmark, hcloses, Bool.false_eq_true, if_false, if_true]
        rw [List.drop_eq_nil_of_le (by simp), List.filter_nil, List.map_nil, List.append_nil]
      · have hbelow := ih (n := n) (by omega) (by omega) (by omega) fun j hj hlt => hpassed j hj (by omega)
        have hline := hpassed i (by omega) (by omega)
        rw [drop_take_add_one (by omega) (by omega), List.filter_append, List.map_append, ← List.append_assoc, ← hbelow]
        rw [passes, closesComment, Bool.or_eq_true] at hline
        cases hblank : (trim (lineAt ls i)).isEmpty with
        | true => simp [hblank]
        | false =>
            rw [hblank] at hline
            simp only [Bool.false_eq_true, false_or, Bool.and_eq_true, Bool.not_eq_true'] at hline
            obtain ⟨⟨hopen, hquote⟩, hcomment⟩ := hline
            have hnone := Option.isNone_iff_eq_none.mp hquote
            simp only [hopen, hnone, hcomment, Bool.false_eq_true, if_false, if_true]
            simp [hblank]

/-- A search down through numbers finds the greatest one with a property, if there is one. -/
theorem find?_reverse_range'_cases (p : Nat → Bool) (low count : Nat) :
    (∃ i, low ≤ i ∧ i < low + count ∧ p i = true ∧ (∀ j, i < j → j < low + count → p j = false) ∧
        (List.range' low count).reverse.find? p = some i) ∨
      ((∀ j, low ≤ j → j < low + count → p j = false) ∧ (List.range' low count).reverse.find? p = none) := by
  induction count with
  | zero => exact Or.inr ⟨fun j hle hlt => by omega, rfl⟩
  | succ count ih =>
      rw [List.range'_concat, Nat.one_mul, List.reverse_append, List.reverse_singleton, List.singleton_append,
        List.find?_cons]
      cases hlast : p (low + count) with
      | true => exact Or.inl ⟨low + count, by omega, by omega, hlast, fun j hj hlt => by omega, rfl⟩
      | false =>
          have hextend : ∀ j, j < low + (count + 1) → (j < low + count → p j = false) → p j = false := by
            intro j hj hbelow
            rcases Nat.lt_succ_iff_lt_or_eq.mp hj with hlt | rfl
            · exact hbelow hlt
            · exact hlast
          rcases ih with ⟨i, hle, hlt, hi, hnearest, hfind⟩ | ⟨hnone, hfind⟩
          · exact Or.inl ⟨i, hle, by omega, hi, fun j hj hj' => hextend j hj' (hnearest j hj), hfind⟩
          · exact Or.inr ⟨fun j hj hj' => hextend j hj' (hnone j hj), hfind⟩

theorem commentBlock?_eq_find (hstop : stop < ls.length) :
    commentBlock? (trim (lineAt ls stop)) (ls.take stop).reverse =
      ((List.range' (stop - blockReach) (stop + 1 - (stop - blockReach))).reverse.find? fun j =>
        opensComment (lineAt ls j)).map fun j => ((ls.take (stop + 1)).drop j).map trim := by
  have hcount : stop - blockReach + (stop + 1 - (stop - blockReach)) = stop + 1 := by omega
  have hfind := blockUpTo?_eq_find ("/*".toList.isPrefixOf ·)
    (show stop - blockReach + (stop + 1 - (stop - blockReach)) ≤ ls.length by omega)
  rw [hcount, drop_take_add_one (Nat.sub_le stop blockReach) hstop, List.reverse_append, List.reverse_singleton,
    List.singleton_append, ← take_reverse_take (Nat.le_of_lt hstop)] at hfind
  rw [commentBlock?, blockUpTo?, trim_trim, ← blockUpTo?, hfind]
  rfl

/-- The block that ends on a line starts with the nearest line that opens one, if any is near enough. -/
theorem commentBlock?_cases (hstop : stop < ls.length) :
    (∃ opener, OpensFor ls opener stop ∧ commentBlock? (trim (lineAt ls stop)) (ls.take stop).reverse =
        some (((ls.take (stop + 1)).drop opener).map trim)) ∨
      ((∀ j line, j ≤ stop → stop ≤ j + blockReach → ls[j]? = some line → opensComment line = false) ∧
        commentBlock? (trim (lineAt ls stop)) (ls.take stop).reverse = none) := by
  rw [commentBlock?_eq_find hstop]
  rcases find?_reverse_range'_cases (fun j => opensComment (lineAt ls j)) (stop - blockReach)
    (stop + 1 - (stop - blockReach)) with ⟨opener, hle, hlt, hopens, hnearest, hfind⟩ | ⟨hnone, hfind⟩
  · left
    refine ⟨opener, ⟨by omega, by omega, ⟨_, getElem?_lineAt (by omega), hopens⟩, ?_⟩, by rw [hfind]; rfl⟩
    intro j line hj hj' hline
    rw [← (lineAt_of_some hline).2]
    exact hnearest j hj (by omega)
  · right
    refine ⟨fun j line hj hnear hline => ?_, by rw [hfind]; rfl⟩
    rw [← (lineAt_of_some hline).2]
    exact hnone j (by omega) (by omega)

theorem drop_take_append {first next : Nat} (hle : first ≤ next) (hnext : next ≤ start) (hlength : next ≤ ls.length) :
    (ls.take next).drop first ++ (ls.take start).drop next = (ls.take start).drop first := by
  have hsplit := List.take_append_drop next (ls.take start)
  rw [List.take_take, Nat.min_eq_left hnext] at hsplit
  conv_rhs => rw [← hsplit]
  rw [List.drop_append_of_le_length]
  rw [List.length_take]
  omega

/-- Where the search stops on a line with a closing mark, the docstring is made of the block that ends there and the
lines below. -/
theorem before?_of_stopsOn (h : StopsOn ls start stop) :
    before? ls start = ofLines? ((commentBlock? (trim (lineAt ls stop)) (ls.take stop).reverse).getD [] ++
      (ls.take start).drop (stop + 1)) := by
  obtain ⟨line, hline, hcloses⟩ := h.closes
  obtain ⟨hlt, hat⟩ := lineAt_of_some hline
  have habove := h.above
  have hnear := h.near
  have htake : ls.take (min start ls.length) = ls.take start := by
    rw [← List.take_take, List.take_length]
  have hpassed : ∀ j, stop < j → j < min start ls.length → passes (lineAt ls j) = true := by
    intro j hj hj'
    exact h.passed j _ hj (by omega) (getElem?_lineAt (by omega))
  have hcollected := commentAbove_of_passed (n := min start ls.length - (start - reach)) (Nat.min_le_right start _)
    (by omega) (by omega) (by rw [hat]; exact hcloses) hpassed
  rw [htake] at hcollected
  rw [before?, hcollected, ofLines?_eq, ofLines?_eq, said_append, said_map_trim, said_filter, said_append]

/-- No line of the block above the last one holds a closing mark. -/
def OneComment (ls : List Chars) (opener stop : Nat) : Prop :=
  ∀ j line, opener ≤ j → j < stop → ls[j]? = some line → containsText "*/".toList line = false

/-- Below each line above line `stop` that holds a closing mark, some line down to `stop` starts with an opening
mark. -/
def Reopens (ls : List Chars) (stop : Nat) : Prop :=
  ∀ i line, i < stop → ls[i]? = some line → containsText "*/".toList line = true →
    ∃ j opener, i < j ∧ j ≤ stop ∧ ls[j]? = some opener ∧ opensComment opener = true

theorem OpensFor.oneComment_iff {opener : Nat} (h : OpensFor ls opener stop) :
    OneComment ls opener stop ↔ Reopens ls stop := by
  constructor
  · intro hone i line hi hline hholds
    obtain ⟨first, hfirst, hopens⟩ := h.opens
    have hbelow : i < opener := by
      by_contra hge
      rw [hone i line (by omega) hi hline] at hholds
      cases hholds
    exact ⟨opener, first, hbelow, h.le, hfirst, hopens⟩
  · intro hreopens j line hj hstop hline
    by_contra hholds
    obtain ⟨i, first, hi, hle, hfirst, hopens⟩ := hreopens j line hstop hline (by simpa using hholds)
    rw [h.nearest i first (by omega) hle hfirst] at hopens
    cases hopens

/-- The docstring of a declaration whose search stops on a line with a closing mark: the lines from the nearest one
that starts with an opening mark down to the declaration, or only those below the mark where none is near enough.
The block is one comment exactly if between each closing mark above and its own last line another line starts with
an opening mark. -/
theorem comment_above_iff (h : StopsOn ls start stop) :
    (∃ opener, OpensFor ls opener stop ∧ before? ls start = ofLines? ((ls.take start).drop opener) ∧
        (OneComment ls opener stop ↔ Reopens ls stop)) ∨
      ((∀ j line, j ≤ stop → stop ≤ j + blockReach → ls[j]? = some line → opensComment line = false) ∧
        before? ls start = ofLines? ((ls.take start).drop (stop + 1))) := by
  have hdoc := before?_of_stopsOn h
  obtain ⟨line, hline, -⟩ := h.closes
  have hlt := (lineAt_of_some hline).1
  have habove := h.above
  rcases commentBlock?_cases hlt with ⟨opener, hopener, hblock⟩ | ⟨hnone, hblock⟩
  · refine Or.inl ⟨opener, hopener, ?_, hopener.oneComment_iff⟩
    rw [hdoc, hblock, Option.getD_some, ofLines?_eq, said_append, said_map_trim, ← said_append,
      drop_take_append (Nat.le_succ_of_le hopener.le) habove hlt, ← ofLines?_eq]
  · refine Or.inr ⟨hnone, ?_⟩
    rw [hdoc, hblock, Option.getD_none, List.nil_append]

end

/-- A function below a block comment, a blank line and a line comment. -/
def describedSum : List Chars :=
  ["/**", " * Adds two numbers.", " */", "", "// Overflow is not checked.", "function add(a, b)"].map String.toList

theorem comment_above_iff_describedSum : StopsOn describedSum 5 2 ∧
    ∃ opener, OpensFor describedSum opener 2 ∧
      before? describedSum 5 = ofLines? ((describedSum.take 5).drop opener) ∧
      (OneComment describedSum opener 2 ↔ Reopens describedSum 2) := by
  have hstops : StopsOn describedSum 5 2 := by
    refine ⟨by decide, by decide, ⟨_, rfl, by decide +kernel⟩, fun j line hj hj' hline => ?_⟩
    interval_cases j
    · cases hline
      decide +kernel
    · cases hline
      decide +kernel
  refine ⟨hstops, ?_⟩
  rcases comment_above_iff hstops with hblock | ⟨hnone, -⟩
  · exact hblock
  · have hopens : opensComment "/**".toList = true := by decide +kernel
    rw [hnone 0 _ (by decide) (by decide) rfl] at hopens
    cases hopens

/-- A function below a line with code and a comment, and a comment above that line. -/
def connection : String :=
  "/* Opens the connection. */\nlet retries = 3; /* attempts in all */\nfunction connect(url) \x7b\n  return open(url);\n\x7d\n"

/-- The code between the two comments is taken for documentation. -/
theorem comment_merged_connection :
    StopsOn (lines connection.toList) 2 1 ∧ OpensFor (lines connection.toList) 0 1 ∧
      ¬ OneComment (lines connection.toList) 0 1 ∧
      ∃ entities, Catalog.standard.entities connection "src/net.js" = .ok entities ∧
        ∃ entity ∈ entities, entity.kind = .function ∧ entity.name = "connect" ∧
          entity.doc = some "Opens the connection.\nlet retries = 3; /* attempts in all" := by
  have hlines : lines connection.toList =
      ["/* Opens the connection. */", "let retries = 3; /* attempts in all */", "function connect(url) \x7b",
        "  return open(url);", "\x7d"].map String.toList := by
    rw [connection, String.toList_ofList]
    decide +kernel
  have hpath : Path.extension "src/net.js".toList ≠ "ipynb".toList := by decide
  refine ⟨?_, ?_, ?_, _, Catalog.entities_of_source connection hpath, ?_⟩
  · rw [hlines]
    exact ⟨by decide, by decide, ⟨_, rfl, by decide +kernel⟩, fun j line hj hj' _ => by omega⟩
  · rw [hlines]
    refine ⟨by decide, by decide, ⟨_, rfl, by decide +kernel⟩, fun j line hj hj' hline => ?_⟩
    obtain rfl : j = 1 := by omega
    cases hline
    decide +kernel
  · rw [hlines]
    intro hone
    have hnone := hone 0 _ (Nat.le_refl 0) (by decide) rfl
    revert hnone
    decide +kernel
  · rw [connection, String.toList_ofList]
    decide +kernel

end SourceIndex.Docstring
