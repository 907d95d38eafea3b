import Mathlib.Data.List.DropRight
import SourceIndex.Proofs.Entity.Ranges
import SourceIndex.Proofs.Text.Distinct
import SourceIndex.Proofs.Text.Matching

/-! The methods of a class in Python. A definition inside a class is a code line indented like the first line of
the class's body, so its body ends with the class's at the latest, and above the next definition. Its header
is not held back by either: it goes on while a bracket is open, and brackets within string literals count. So
a method stays inside its class, and apart from the next method, exactly if its header does. -/

namespace SourceIndex
open Text

namespace Indentation

/-- A line whose first character that is not blank starts no comment is a code line. -/
theorem isCode_of_append {blanks rest : Chars} {c : Char} (hblanks : ∀ b ∈ blanks, isBlank b = true)
    (hc : isBlank c = false) (hcomment : c ≠ '#') : isCode (blanks ++ c :: rest) = true := by
  have hstart : trimStart (blanks ++ c :: rest) = c :: rest := by
    rw [trimStart, List.dropWhile_append_of_pos hblanks, List.dropWhile_cons_of_neg (by simp [hc])]
  have hne : trimEnd (c :: rest) ≠ [] := by
    intro hnil
    have hall : ∀ b ∈ c :: rest, isBlank b = true := List.rdropWhile_eq_nil_iff.mp hnil
    rw [hall c List.mem_cons_self] at hc
    cases hc
  obtain ⟨kept, hkept⟩ : ∃ kept, trimEnd (c :: rest) = c :: kept := by
    cases hend : trimEnd (c :: rest) with
    | nil => exact absurd hend hne
    | cons d kept =>
        have hbegin : trimEnd (c :: rest) <+: c :: rest := List.rdropWhile_prefix isBlank _
        rw [hend, List.cons_prefix_cons] at hbegin
        exact ⟨kept, by rw [hbegin.1]⟩
  rw [isCode, trim, hstart, hkept]
  simpa using hcomment

end Indentation

namespace Python
open Text.Pattern

/-- A line that starts a definition is a code line. -/
theorem isCode_of_indentedDefinition {line : Chars} {captures : Captures}
    (h : indentedDefinition.match? line = some captures) : Indentation.isCode line = true := by
  obtain ⟨taken, rest, rfl, hdescribes⟩ := describes_of_match? h
  obtain ⟨_, _, rfl, ⟨_, _, rfl, ⟨_, _, rfl, ⟨_, _, rfl, ⟨_, _, rfl, ⟨_, blanks, rfl, rfl, hblanks⟩,
    hasync⟩, ⟨_, _, rfl, rfl, _⟩⟩, _⟩, _⟩, _⟩ := hdescribes
  rcases hasync with ⟨_, _, rfl, rfl, _⟩ | rfl
  · simp only [List.nil_append, List.append_assoc]
    exact Indentation.isCode_of_append hblanks (c := 'a') (by decide) (by decide)
  · simp only [List.nil_append, List.append_assoc]
    exact Indentation.isCode_of_append hblanks (c := 'd') (by decide) (by decide)

/-- A method as the search finds it in the class on lines `start` to `stop`: a code line below the header of
the class, indented like the body, and the block that it heads. -/
structure IsMethod (ls : List Chars) (start stop width : Nat) (method : Span) : Prop where
  header_lt : Indentation.headerEnd ls start < method.start
  start_le : method.start ≤ stop
  isCode : ∃ line, ls[method.start]? = some line ∧ Indentation.isCode line = true ∧
    Indentation.indent line = width
  stop_eq : method.stop = Indentation.blockEnd ls method.start

theorem isMethod_of_mem_methodSpans {ls : List Chars} {className : Chars} {start stop : Nat} {method : Span}
    (h : method ∈ methodSpans ls className start stop) :
    ∃ width, Indentation.innerIndent ls start stop = some width ∧ IsMethod ls start stop width method := by
  obtain ⟨width, i, line, hwidth, hheader, hstop, hline, hspan⟩ := mem_methodSpans h
  obtain ⟨hindent, captures, hmatch, rfl⟩ := of_methodSpan? hspan
  exact ⟨width, hwidth, {
    header_lt := hheader
    start_le := hstop
    isCode := ⟨line, hline, isCode_of_indentedDefinition hmatch, hindent⟩
    stop_eq := rfl }⟩

/-- The methods of a class come in the order of the file. -/
theorem methodSpans_sorted (ls : List Chars) (className : Chars) (start stop : Nat) :
    (methodSpans ls className start stop).Pairwise fun a b => a.start < b.start := by
  rw [methodSpans]
  split
  · exact List.Pairwise.nil
  · refine List.Pairwise.filterMap _ ?_ (((zipIdx_sorted ls 0).take).drop)
    intro a b hab method hmethod later hlater
    obtain ⟨_, _, _, rfl⟩ := of_methodSpan? hmethod
    obtain ⟨_, _, _, rfl⟩ := of_methodSpan? hlater
    exact hab

section
variable {ls : List Chars} {start width : Nat} {head : Chars} {method : Span}

/-- A method of a class ends with the class at the latest, unless its header goes on further. -/
theorem IsMethod.stop_le_iff (hhead : ls[start]? = some head)
    (hwidth : Indentation.innerIndent ls start (Indentation.blockEnd ls start) = some width)
    (h : IsMethod ls start (Indentation.blockEnd ls start) width method) :
    method.stop ≤ Indentation.blockEnd ls start ↔
      Indentation.headerEnd ls method.start ≤ Indentation.blockEnd ls start := by
  obtain ⟨line, hline, _, hindent⟩ := h.isCode
  rw [h.stop_eq]
  constructor
  · exact Nat.le_trans (Indentation.headerEnd_le_blockEnd ls method.start)
  · intro hheader
    rcases Indentation.blockEnd_isCode hline with heq | ⟨last, hlast, hcode⟩
    · rw [heq]
      exact hheader
    · -- The code lines down to the end of the method are indented further than the head of the class:
      -- as lines of the class, or else as lines of the method, which is itself a line of the class.
      have hinner : Indentation.indent head < width := by
        obtain ⟨i, first, hafter, hle, hfirst, hfirstCode, rfl⟩ :=
          Indentation.exists_of_innerIndent hwidth
        exact Indentation.lt_indent_of_le_blockEnd hhead hfirst hfirstCode hafter hle
      refine Indentation.le_blockEnd_of_lt_indent hhead hlast hcode
        fun j other hafter hle hother hotherCode => ?_
      by_cases hclass : j ≤ Indentation.blockEnd ls start
      · exact Indentation.lt_indent_of_le_blockEnd hhead hother hotherCode hafter hclass
      · have hmethod : Indentation.indent line < Indentation.indent other :=
          Indentation.lt_indent_of_le_blockEnd hline hother hotherCode (by omega) hle
        omega

/-- A method of a class ends above a later one, unless its header goes on as far as that. -/
theorem IsMethod.stop_lt_iff {stop : Nat} {later : Span} (h : IsMethod ls start stop width method)
    (hlater : IsMethod ls start stop width later) :
    method.stop < later.start ↔ Indentation.headerEnd ls method.start < later.start := by
  obtain ⟨line, hline, _, hindent⟩ := h.isCode
  obtain ⟨next, hnext, hcode, hnextIndent⟩ := hlater.isCode
  rw [h.stop_eq]
  constructor
  · exact Nat.lt_of_le_of_lt (Indentation.headerEnd_le_blockEnd ls method.start)
  · intro hheader
    by_contra hreached
    have hdeeper : Indentation.indent line < Indentation.indent next :=
      Indentation.lt_indent_of_le_blockEnd hline hnext hcode hheader (Nat.le_of_not_lt hreached)
    omega

end

/-- The methods of a class start inside it, in the order of the file. A method ends inside the class exactly if
its header does, and above a later method exactly if its header does. -/
theorem methods_contained_iff {ls : List Chars} {i : Nat} {line : Chars} {captures : Captures}
    (hline : ls[i]? = some line) (hclass : classHeader.match? line = some captures) :
    ∃ (declaration : Span) (methods : List Span),
      classSpans ls i line = declaration :: methods ∧ declaration.start = i ∧
      (∀ method ∈ methods, declaration.start < method.start ∧ method.start ≤ declaration.stop ∧
        (method.stop ≤ declaration.stop ↔
          Indentation.headerEnd ls method.start ≤ declaration.stop)) ∧
      methods.Pairwise fun a b => a.start < b.start ∧
        (a.stop < b.start ↔ Indentation.headerEnd ls a.start < b.start) := by
  have hsorted := methodSpans_sorted ls (captures.get 1) i (Indentation.blockEnd ls i)
  rw [classSpans, hclass]
  refine ⟨_, _, rfl, rfl, fun method hmethod => ?_, ?_⟩
  · obtain ⟨width, hwidth, h⟩ := isMethod_of_mem_methodSpans hmethod
    have hheader := (Indentation.headerEnd_bounds ls i).1
    exact ⟨Nat.lt_of_le_of_lt hheader h.header_lt, h.start_le, h.stop_le_iff hline hwidth⟩
  · refine hsorted.imp_of_mem fun ha hb hab => ⟨hab, ?_⟩
    obtain ⟨width, hwidth, h⟩ := isMethod_of_mem_methodSpans ha
    obtain ⟨width', hwidth', h'⟩ := isMethod_of_mem_methodSpans hb
    cases hwidth.symm.trans hwidth'
    exact h.stop_lt_iff h'

/-- A class of two methods, the first of which has an opening bracket as a default value. -/
def bracketClass : String :=
  "class Table:\n    def parse(self, open=\"(\"):\n        return open\n\n    def rows(self):\n        return []\n\n\ndef main():\n    pass\n"

theorem methods_contained_iff_bracketClass :
    (lines bracketClass.toList)[0]? = some "class Table:".toList ∧
      classHeader.match? "class Table:".toList = some [(1, "Table".toList)] ∧
      (classSpans (lines bracketClass.toList) 0 "class Table:".toList).map
        (fun span => (span.start, span.stop)) = [(0, 5), (1, 9), (4, 5)] ∧
      ∃ (declaration : Span) (methods : List Span),
        classSpans (lines bracketClass.toList) 0 "class Table:".toList = declaration :: methods ∧
        (∀ method ∈ methods, method.stop ≤ declaration.stop ↔
          Indentation.headerEnd (lines bracketClass.toList) method.start ≤ declaration.stop) ∧
        methods.Pairwise fun a b => a.stop < b.start ↔
          Indentation.headerEnd (lines bracketClass.toList) a.start < b.start := by
  have hline : (lines bracketClass.toList)[0]? = some "class Table:".toList := by
    rw [bracketClass, String.toList_ofList]
    decide +kernel
  have hclass : classHeader.match? "class Table:".toList = some [(1, "Table".toList)] := by
    decide +kernel
  have hranges : (classSpans (lines bracketClass.toList) 0 "class Table:".toList).map
      (fun span => (span.start, span.stop)) = [(0, 5), (1, 9), (4, 5)] := by
    rw [bracketClass, String.toList_ofList]
    decide +kernel
  obtain ⟨declaration, methods, hspans, _, hcontained, hapart⟩ := methods_contained_iff hline hclass
  exact ⟨hline, hclass, hranges, declaration, methods, hspans,
    fun method hmethod => (hcontained method hmethod).2.2, hapart.imp fun hab => hab.2⟩

/-- The header of the first method is never closed, so the method goes beyond its class and over the other
method of it. -/
theorem methods_overlap_bracketClass :
    ∃ entities, Catalog.standard.entities bracketClass "src/table.py" = .ok entities ∧
      ∃ declaration ∈ entities, ∃ parse ∈ entities, ∃ rows ∈ entities,
        declaration.kind = .classDef ∧ parse.kind = .method ∧ rows.kind = .method ∧
        parse.parent = some declaration.name ∧ rows.parent = some declaration.name ∧ parse ≠ rows ∧
        ¬ parse.endLine ≤ declaration.endLine ∧
        ¬ (parse.endLine < rows.startLine ∨ rows.endLine < parse.startLine) := by
  have hpath : Path.extension "src/table.py".toList ≠ "ipynb".toList := by decide
  refine ⟨_, Catalog.entities_of_source bracketClass hpath, ?_⟩
  rw [bracketClass, String.toList_ofList]
  decide +kernel

end Python
end SourceIndex
