import SourceIndex.Proofs.Chunk.Addresses
import SourceIndex.Proofs.Entity.Ranges

/-! The cells of a notebook as files of their own. Cells are named by their position and their lines are
counted over the texts of all cells before them, so two things have to stay apart: a name tells which cell
its entity came from, and the lines before a cell are those of every earlier cell, be it listed or not. Where
the kernel speaks Python, what is declared in a cell is what a Python file of the same text declares, moved
down by the lines before the cell. -/

namespace SourceIndex
open Text

/-- A text that is not empty has lines. -/
theorem Text.linesAfter_ne_nil {s line : Chars} (h : s ≠ [] ∨ line ≠ []) : linesAfter s line ≠ [] := by
  fun_induction linesAfter s line with
  | case1 => simp at h
  | case2 line hline => exact List.cons_ne_nil _ _
  | case3 rest line ih => exact List.cons_ne_nil _ _
  | case4 rest line hline ih => exact List.cons_ne_nil _ _
  | case5 c rest line hline hfeed ih => exact ih (Or.inr (List.cons_ne_nil _ _))

namespace Entity

/-- A class, a method or a function. -/
def isDefinition (entity : Entity) : Bool :=
  [EntityKind.classDef, .method, .function].contains entity.kind

end Entity

namespace Python

section
variable {ls : List Chars} {span : Span}

theorem kind_of_mem_methodSpans {className : Chars} {start stop : Nat}
    (h : span ∈ methodSpans ls className start stop) : span.kind = .method := by
  obtain ⟨_, _, _, _, _, _, _, hspan⟩ := mem_methodSpans h
  obtain ⟨_, _, _, rfl⟩ := of_methodSpan? hspan
  rfl

/-- A declaration in Python is a class, a method of one, or a function. -/
theorem kind_of_mem_spans (h : span ∈ spans ls) :
    span.kind ∈ [EntityKind.classDef, .method, .function] := by
  obtain ⟨i, line, _, hclass | hfunction⟩ := mem_spans h
  · unfold classSpans at hclass
    split at hclass
    · cases hclass
    · rcases List.mem_cons.mp hclass with rfl | hmember
      · exact List.mem_cons_self
      · rw [kind_of_mem_methodSpans hmember]
        decide
  · obtain ⟨captures, _, rfl⟩ := Option.map_eq_some_iff.mp hfunction
    simp

end

end Python

/-- The definitions among the entities of a Python file are those of its declarations. -/
theorem SourceFile.filter_isDefinition (content : Chars) {path : Chars}
    (hpath : Path.extension path = "py".toList) :
    (entities content path).filter Entity.isDefinition =
      (declarations (lines content) .python false).map
        (·.toEntity (lines content) (Symbols.ofText content .python)) := by
  have hlanguage : Language.ofExtension (Path.extension path) = .python := by
    rw [hpath]
    decide
  have hcomponents : Language.hasComponents (Path.extension path) = false := by
    rw [hpath]
    decide
  have htop : ∀ name ls count budget symbols, ¬ (topOf name ls count budget symbols).isDefinition = true :=
    fun _ _ _ _ _ => Bool.false_ne_true
  have hdeclared : ∀ entity ∈ (declarations (lines content) .python false).map
      (·.toEntity (lines content) (Symbols.ofText content .python)), entity.isDefinition = true := by
    intro entity hentity
    obtain ⟨span, hspan, rfl⟩ := List.mem_map.mp hentity
    exact List.contains_iff_mem.mpr (Python.kind_of_mem_spans hspan)
  have hfull : ∀ holds : Bool, ((if holds then
      [topOf (Path.fileName path ++ ":full".toList) (lines content) (lines content).length
        Entity.fullBudget (Symbols.ofText content .python)] else []).filter Entity.isDefinition) = [] := by
    intro holds
    cases holds <;> rfl
  simp only [entities, hlanguage, hcomponents, List.cons_append, List.filter_append,
    List.filter_cons_of_neg (htop _ _ _ _ _), hfull, List.nil_append]
  exact List.filter_eq_self.mpr hdeclared

namespace Notebook

/-! ### The lines before a cell -/

/-- How many lines the cells before a position have, of whatever kind they are. -/
def linesBefore (cells : List Cell) (i : Nat) : Nat :=
  (cells.take i).foldr (fun cell count => cell.lineCount + count) 0

theorem linesBefore_zero (cells : List Cell) : linesBefore cells 0 = 0 := by
  rw [linesBefore, List.take_zero, List.foldr_nil]

theorem linesBefore_cons_succ (cell : Cell) (rest : List Cell) (i : Nat) :
    linesBefore (cell :: rest) (i + 1) = cell.lineCount + linesBefore rest i := by
  rw [linesBefore, List.take_succ_cons, List.foldr_cons, linesBefore]

theorem linesBefore_succ {cells : List Cell} {i : Nat} {cell : Cell} (h : cells[i]? = some cell) :
    linesBefore cells (i + 1) = linesBefore cells i + cell.lineCount := by
  induction cells generalizing i with
  | nil => cases h
  | cons first rest ih =>
      cases i with
      | zero =>
          cases h
          rw [linesBefore_cons_succ, linesBefore_zero, linesBefore_zero, Nat.add_comm]
      | succ i => rw [linesBefore_cons_succ, linesBefore_cons_succ, ih h, Nat.add_assoc]

theorem linesBefore_le_totalLines (notebook : Notebook) (i : Nat) :
    linesBefore notebook.cells i ≤ notebook.totalLines := by
  unfold totalLines
  induction notebook.cells generalizing i with
  | nil => simp only [linesBefore, List.take_nil, Nat.le_refl]
  | cons cell rest ih =>
      cases i with
      | zero =>
          rw [linesBefore_zero]
          exact Nat.zero_le _
      | succ i =>
          rw [linesBefore_cons_succ, List.foldr_cons]
          exact Nat.add_le_add_left (ih i) cell.lineCount

theorem linesBefore_mono (cells : List Cell) {i j : Nat} (h : i ≤ j) :
    linesBefore cells i ≤ linesBefore cells j := by
  have hle := linesBefore_le_totalLines ⟨cells.take j, .null⟩ i
  simpa only [linesBefore, totalLines, List.take_take, Nat.min_eq_left h] using hle

/-! ### Names -/

theorem colon_not_mem_cellName (position : Nat) : ':' ∉ cellName position := by
  have hname : cellName position = "cell_".toList ++ (toString (position + 1)).toList := rfl
  rw [hname, Nat.toString_eq_ofList_toDigits, List.mem_append]
  rintro (h | h)
  · exact absurd h (by decide)
  · rw [String.toList_ofList] at h
    have hdigit : Char.isDigit ':' = true := Nat.isDigit_of_mem_toDigits (by omega) (Nat.le_refl 10) h
    exact absurd hdigit (by decide)

theorem cellName_injective {i j : Nat} (h : cellName i = cellName j) : i = j := by
  have hdigits : (toString (i + 1)).toList = (toString (j + 1)).toList := List.append_cancel_left h
  rw [Nat.toString_eq_ofList_toDigits, Nat.toString_eq_ofList_toDigits, String.toList_ofList,
    String.toList_ofList] at hdigits
  have hnumber := congrArg (Nat.ofDigitChars 10 · 0) hdigits
  simp only [Nat.ofDigitChars_ten_toDigits] at hnumber
  omega

/-- The entity is that of the cell at a position. -/
def isOwn (i : Nat) (entity : Entity) : Bool := entity.name.toList == cellName i

/-- The entity is named below the cell at a position. -/
def isBelow (i : Nat) (entity : Entity) : Bool :=
  (cellName i ++ "::".toList).isPrefixOf entity.name.toList

theorem colon_mem_of_isBelow {i : Nat} {entity : Entity} (h : isBelow i entity = true) :
    ':' ∈ entity.name.toList := by
  obtain ⟨rest, hname⟩ := List.isPrefixOf_iff_prefix.mp h
  rw [← hname, List.mem_append, List.mem_append]
  exact Or.inl (Or.inr (by decide))

theorem toList_name_moved (name : Chars) (offset : Nat) (entity : Entity) :
    (moved name offset entity).name.toList = name ++ "::".toList ++ entity.name.toList := by
  have hname : (moved name offset entity).name = String.ofList (name ++ "::".toList) ++ entity.name := rfl
  rw [hname, String.toList_append, String.toList_ofList]

theorem colon_mem_moved (name : Chars) (offset : Nat) (entity : Entity) :
    ':' ∈ (moved name offset entity).name.toList := by
  rw [toList_name_moved]
  exact List.mem_append_left _ (List.mem_append_right _ (by decide))

theorem isBelow_moved_iff {i j offset : Nat} {entity : Entity} :
    isBelow j (moved (cellName i) offset entity) = true ↔ i = j := by
  rw [isBelow, List.isPrefixOf_iff_prefix, toList_name_moved]
  constructor
  · rintro ⟨rest, hname⟩
    -- The first colon ends the number of the cell.
    have hparted : cellName j ++ ':' :: (':' :: rest) =
        cellName i ++ ':' :: (':' :: entity.name.toList) := by
      simpa using hname
    exact cellName_injective
      (eq_and_eq_of_append_cons (colon_not_mem_cellName j) (colon_not_mem_cellName i) hparted).1.symm
  · rintro rfl
    exact List.prefix_append _ _

/-! ### One cell -/

theorem Cell.one_le_lineCount {cell : Cell} (h : cell.isListed = true) : 1 ≤ cell.lineCount := by
  have htext : cell.text ≠ [] := by
    intro hnil
    rw [isListed, hnil] at h
    simp [isBlankText] at h
  exact List.length_pos_iff.mpr (linesAfter_ne_nil (Or.inl htext))

/-- A listed cell ends with its last line. -/
theorem endLine_cellEntity {cell : Cell} (h : cell.isListed = true) (symbols : Symbols) (name : Chars)
    (offset : Nat) (previous : Option Cell) :
    (cellEntity symbols name offset previous cell).endLine = offset + cell.lineCount := by
  rw [cellEntity, Nat.max_eq_left (Cell.one_le_lineCount h)]

theorem isOwn_cellEntity (symbols : Symbols) (i offset : Nat) (previous : Option Cell) (cell : Cell) :
    isOwn i (cellEntity symbols (cellName i) offset previous cell) = true := by
  rw [isOwn, cellEntity, String.toList_ofList]
  exact beq_self_eq_true _

section
variable {language : Language} {i offset : Nat} {previous : Option Cell} {cell : Cell} {entity : Entity}

/-- An entity of a cell stands on lines of the cell. -/
theorem lines_of_mem_cellEntities (hlisted : cell.isListed = true)
    (h : entity ∈ cellEntities language i offset previous cell) :
    offset < entity.startLine ∧ entity.startLine ≤ entity.endLine ∧
      entity.endLine ≤ offset + cell.lineCount := by
  rw [cellEntities, List.mem_cons, List.mem_map] at h
  rcases h with rfl | ⟨span, hspan, rfl⟩
  · have hcount := Cell.one_le_lineCount hlisted
    rw [endLine_cellEntity hlisted]
    simp only [cellEntity]
    omega
  · have hsound := SourceFile.sound_of_mem_declarations hspan
    have hstart := hsound.start_le
    have hstop : span.stop < cell.lineCount := hsound.stop_lt
    simp only [moved, Span.toEntity]
    omega

/-- An entity of a cell is named by the cell. -/
theorem isOwn_or_isBelow (h : entity ∈ cellEntities language i offset previous cell) :
    isOwn i entity = true ∨ isBelow i entity = true := by
  rw [cellEntities, List.mem_cons, List.mem_map] at h
  rcases h with rfl | ⟨span, _, rfl⟩
  · exact Or.inl (isOwn_cellEntity _ i offset previous cell)
  · exact Or.inr (isBelow_moved_iff.mpr rfl)

theorem of_isOwn {j : Nat} (h : entity ∈ cellEntities language i offset previous cell)
    (hown : isOwn j entity = true) :
    i = j ∧ entity =
      cellEntity (Symbols.ofText cell.text language) (cellName i) offset previous cell := by
  have hname : entity.name.toList = cellName j := beq_iff_eq.mp hown
  rw [cellEntities, List.mem_cons, List.mem_map] at h
  rcases h with rfl | ⟨span, _, rfl⟩
  · rw [cellEntity, String.toList_ofList] at hname
    exact ⟨cellName_injective hname, rfl⟩
  · exact absurd (hname ▸ colon_mem_moved _ _ _) (colon_not_mem_cellName j)

theorem eq_of_isBelow {j : Nat} (h : entity ∈ cellEntities language i offset previous cell)
    (hbelow : isBelow j entity = true) : i = j := by
  rw [cellEntities, List.mem_cons, List.mem_map] at h
  rcases h with rfl | ⟨span, _, rfl⟩
  · have hcolon := colon_mem_of_isBelow hbelow
    rw [cellEntity, String.toList_ofList] at hcolon
    exact absurd hcolon (colon_not_mem_cellName i)
  · exact isBelow_moved_iff.mp hbelow

end

section
variable (language : Language) (i offset : Nat) (previous : Option Cell) (cell : Cell)

theorem filter_isOwn_cellEntities :
    (cellEntities language i offset previous cell).filter (isOwn i) =
      [cellEntity (Symbols.ofText cell.text language) (cellName i) offset previous cell] := by
  rw [cellEntities, List.filter_cons_of_pos (isOwn_cellEntity _ i offset previous cell)]
  refine congrArg _ (List.filter_eq_nil_iff.mpr fun entity hentity hname => ?_)
  obtain ⟨span, _, rfl⟩ := List.mem_map.mp hentity
  exact colon_not_mem_cellName i (beq_iff_eq.mp hname ▸ colon_mem_moved _ _ _)

theorem filter_isBelow_cellEntities :
    (cellEntities language i offset previous cell).filter (isBelow i) =
      ((SourceFile.declarations (lines cell.text) language false).map
        (·.toEntity (lines cell.text) (Symbols.ofText cell.text language))).map
          (moved (cellName i) offset) := by
  have hown : ¬ isBelow i (cellEntity (Symbols.ofText cell.text language) (cellName i) offset previous
      cell) = true := by
    intro hbelow
    have hcolon := colon_mem_of_isBelow hbelow
    rw [cellEntity, String.toList_ofList] at hcolon
    exact colon_not_mem_cellName i hcolon
  rw [cellEntities, List.filter_cons_of_neg hown, List.map_map]
  refine List.filter_eq_self.mpr fun entity hentity => ?_
  obtain ⟨span, _, rfl⟩ := List.mem_map.mp hentity
  exact isBelow_moved_iff.mpr rfl

end

/-! ### All cells -/

/-- An entity below the overview is one of a listed cell, placed after the lines of all cells before it. -/
theorem exists_of_mem_entitiesFrom {language : Language} {position offset : Nat} {previous : Option Cell}
    {cells : List Cell} {entity : Entity}
    (h : entity ∈ entitiesFrom language position offset previous cells) :
    ∃ i cell before, cells[i]? = some cell ∧ cell.isListed = true ∧
      entity ∈ cellEntities language (position + i) (offset + linesBefore cells i) before cell := by
  induction cells generalizing position offset previous with
  | nil => cases h
  | cons cell rest ih =>
      rw [entitiesFrom, List.mem_append] at h
      rcases h with hhere | hlater
      · split at hhere
        · exact ⟨0, cell, previous, rfl, ‹_›, by rwa [linesBefore_zero]⟩
        · cases hhere
      · obtain ⟨i, later, before, hcell, hlisted, hentity⟩ := ih hlater
        refine ⟨i + 1, later, before, hcell, hlisted, ?_⟩
        rwa [linesBefore_cons_succ, ← Nat.add_assoc offset, Nat.add_comm i 1, ← Nat.add_assoc position]

/-- What tells the entities of one cell from those of all others finds the entities of this cell, in order. -/
theorem filter_entitiesFrom {p : Entity → Bool} {language : Language} {position offset : Nat}
    {previous : Option Cell} {cells : List Cell} {i : Nat} {cell : Cell} (hcell : cells[i]? = some cell)
    (hlisted : cell.isListed = true)
    (hp : ∀ {j offset previous other entity}, entity ∈ cellEntities language j offset previous other →
      p entity = true → j = position + i) :
    ∃ before, (entitiesFrom language position offset previous cells).filter p =
      (cellEntities language (position + i) (offset + linesBefore cells i) before cell).filter p := by
  induction cells generalizing position offset previous i with
  | nil => cases hcell
  | cons first rest ih =>
      cases i with
      | zero =>
          obtain rfl : first = cell := Option.some.inj hcell
          refine ⟨previous, ?_⟩
          have hlater : (entitiesFrom language (position + 1) (offset + first.lineCount) (some first)
              rest).filter p = [] := by
            refine List.filter_eq_nil_iff.mpr fun entity hentity hfound => ?_
            obtain ⟨k, _, _, _, _, hmem⟩ := exists_of_mem_entitiesFrom hentity
            have hposition := hp hmem hfound
            omega
          rw [entitiesFrom, if_pos hlisted, List.filter_append, hlater, List.append_nil, linesBefore_zero]
          rfl
      | succ i =>
          have hfirst : (if first.isListed then cellEntities language position offset previous first
              else []).filter p = [] := by
            refine List.filter_eq_nil_iff.mpr fun entity hentity hfound => ?_
            split at hentity
            · have hposition := hp hentity hfound
              omega
            · cases hentity
          have hshift : position + 1 + i = position + (i + 1) := by omega
          have hrest : ∃ before, (entitiesFrom language (position + 1) (offset + first.lineCount)
              (some first) rest).filter p = (cellEntities language (position + 1 + i)
                (offset + first.lineCount + linesBefore rest i) before cell).filter p :=
            ih hcell fun hmem hfound => (hp hmem hfound).trans hshift.symm
          obtain ⟨before, hfound⟩ := hrest
          refine ⟨before, ?_⟩
          rw [entitiesFrom, List.filter_append, hfirst, List.nil_append, hfound, hshift,
            linesBefore_cons_succ, Nat.add_assoc]

/-! ### Agreement with Python files -/

/-- The entities below an overview agree with what the code cells hold as files of their own. -/
structure Agrees (notebook : Notebook) (overview : Entity) (below : List Entity) : Prop where
  /-- Every entity is named by a code cell with text. -/
  named : ∀ entity ∈ below, ∃ i cell, notebook.cells[i]? = some cell ∧ cell.isListed = true ∧
    (isOwn i entity = true ∨ isBelow i entity = true)
  /-- A code cell with text has one entity, on the lines that are its own. -/
  own : ∀ {i cell}, notebook.cells[i]? = some cell → cell.isListed = true →
    ∃ whole, below.filter (isOwn i) = [whole] ∧
      whole.startLine = linesBefore notebook.cells i + 1 ∧
      whole.endLine = linesBefore notebook.cells i + cell.lineCount
  /-- What is named below it is what a file of its text defines, under its name and after the lines of all
  cells before it. -/
  declared : ∀ {i cell}, notebook.cells[i]? = some cell → cell.isListed = true →
    ∀ {file : String}, Path.extension file.toList = "py".toList →
      ∃ found, Catalog.standard.entities (String.ofList cell.text) file = .ok found ∧
        below.filter (isBelow i) =
          (found.filter Entity.isDefinition).map (moved (cellName i) (linesBefore notebook.cells i))
  /-- What is named below a cell stands inside it. -/
  inside : ∀ {i whole entity}, whole ∈ below → isOwn i whole = true → entity ∈ below →
    isBelow i entity = true → whole.startLine ≤ entity.startLine ∧ entity.endLine ≤ whole.endLine
  /-- Cells stand apart, in their order. -/
  apart : ∀ {i j earlier later}, i < j → earlier ∈ below → isOwn i earlier = true → later ∈ below →
    isOwn j later = true → earlier.endLine < later.startLine
  /-- Every range is one of lines of the overview. -/
  within : ∀ entity ∈ overview :: below,
    1 ≤ entity.startLine ∧ entity.startLine ≤ entity.endLine ∧ entity.endLine ≤ overview.endLine

section
variable {notebook : Notebook} {language : Language} {entity : Entity}

theorem exists_of_mem (h : entity ∈ entitiesFrom language 0 0 none notebook.cells) :
    ∃ i cell before, notebook.cells[i]? = some cell ∧ cell.isListed = true ∧
      entity ∈ cellEntities language i (linesBefore notebook.cells i) before cell := by
  obtain ⟨i, cell, before, hcell, hlisted, hentity⟩ := exists_of_mem_entitiesFrom h
  rw [Nat.zero_add, Nat.zero_add] at hentity
  exact ⟨i, cell, before, hcell, hlisted, hentity⟩

theorem filter_eq {p : Entity → Bool} {i : Nat} {cell : Cell} (hcell : notebook.cells[i]? = some cell)
    (hlisted : cell.isListed = true)
    (hp : ∀ {j offset previous other entity}, entity ∈ cellEntities language j offset previous other →
      p entity = true → j = i) :
    ∃ before, (entitiesFrom language 0 0 none notebook.cells).filter p =
      (cellEntities language i (linesBefore notebook.cells i) before cell).filter p := by
  have hposition : 0 + i = i := Nat.zero_add i
  obtain ⟨before, hfound⟩ := @filter_entitiesFrom p language 0 0 none notebook.cells i cell hcell hlisted
    fun hmem hfound => (hp hmem hfound).trans hposition.symm
  rw [hposition, Nat.zero_add] at hfound
  exact ⟨before, hfound⟩

/-- The entity of a cell stands on all lines of the cell. -/
theorem lines_of_isOwn {i : Nat} (h : entity ∈ entitiesFrom language 0 0 none notebook.cells)
    (hown : isOwn i entity = true) :
    entity.startLine = linesBefore notebook.cells i + 1 ∧
      entity.endLine = linesBefore notebook.cells (i + 1) := by
  obtain ⟨k, cell, before, hcell, hlisted, hentity⟩ := exists_of_mem h
  obtain ⟨rfl, rfl⟩ := of_isOwn hentity hown
  exact ⟨rfl, (endLine_cellEntity hlisted _ _ _ _).trans (linesBefore_succ hcell).symm⟩

/-- An entity that is named below a cell stands on lines of the cell. -/
theorem lines_of_isBelow {i : Nat} (h : entity ∈ entitiesFrom language 0 0 none notebook.cells)
    (hbelow : isBelow i entity = true) :
    linesBefore notebook.cells i + 1 ≤ entity.startLine ∧
      entity.endLine ≤ linesBefore notebook.cells (i + 1) := by
  obtain ⟨k, cell, before, hcell, hlisted, hentity⟩ := exists_of_mem h
  obtain rfl := eq_of_isBelow hentity hbelow
  obtain ⟨hstart, _, hend⟩ := lines_of_mem_cellEntities hlisted hentity
  rw [linesBefore_succ hcell]
  exact ⟨hstart, hend⟩

theorem bounds_of_mem (h : entity ∈ entitiesFrom language 0 0 none notebook.cells) :
    1 ≤ entity.startLine ∧ entity.startLine ≤ entity.endLine ∧ entity.endLine ≤ notebook.totalLines := by
  obtain ⟨i, cell, before, hcell, hlisted, hentity⟩ := exists_of_mem h
  obtain ⟨hstart, hle, hend⟩ := lines_of_mem_cellEntities hlisted hentity
  have htotal := linesBefore_le_totalLines notebook (i + 1)
  rw [linesBefore_succ hcell] at htotal
  omega

end

theorem agrees (notebook : Notebook) (fileName : Chars) :
    Agrees notebook (notebook.overview fileName) (entitiesFrom .python 0 0 none notebook.cells) where
  named entity hentity := by
    obtain ⟨i, cell, _, hcell, hlisted, hmem⟩ := exists_of_mem hentity
    exact ⟨i, cell, hcell, hlisted, isOwn_or_isBelow hmem⟩
  own {i cell} hcell hlisted := by
    obtain ⟨before, hfound⟩ := filter_eq hcell hlisted fun hmem hown => (of_isOwn hmem hown).1
    rw [filter_isOwn_cellEntities] at hfound
    exact ⟨_, hfound, rfl, endLine_cellEntity hlisted _ _ _ _⟩
  declared {i cell} hcell hlisted file hfile := by
    obtain ⟨before, hfound⟩ := filter_eq hcell hlisted fun hmem hbelow => eq_of_isBelow hmem hbelow
    rw [filter_isBelow_cellEntities] at hfound
    have hsource : Path.extension file.toList ≠ "ipynb".toList := by
      rw [hfile]
      decide
    refine ⟨_, Catalog.entities_of_source _ hsource, ?_⟩
    rw [hfound, String.toList_ofList, SourceFile.filter_isDefinition cell.text hfile]
  inside hwhole hown hentity hbelow := by
    obtain ⟨hstart, hend⟩ := lines_of_isOwn hwhole hown
    rw [hstart, hend]
    exact lines_of_isBelow hentity hbelow
  apart hlt hearlier hown hlater hown' := by
    have hmono := linesBefore_mono notebook.cells (Nat.succ_le_of_lt hlt)
    rw [(lines_of_isOwn hearlier hown).2, (lines_of_isOwn hlater hown').1]
    exact Nat.lt_succ_of_le hmono
  within entity hentity := by
    rcases List.mem_cons.mp hentity with rfl | hbelow
    · exact ⟨Nat.le_refl 1, Nat.le_max_right _ 1, Nat.le_refl _⟩
    · obtain ⟨hstart, hle, hend⟩ := bounds_of_mem hbelow
      exact ⟨hstart, hle, Nat.le_trans hend (Nat.le_max_left _ 1)⟩

end Notebook

namespace Catalog

/-- A notebook whose kernel speaks Python has an overview, named after its file, and below it entities that
agree with its code cells as Python files. -/
theorem cells_agree {content path : String} {notebook : Notebook}
    (hpath : Path.extension path.toList = "ipynb".toList)
    (hread : Notebook.read? content.toList = some notebook) (hlanguage : notebook.language = .python) :
    ∃ overview below, standard.entities content path = .ok (overview :: below) ∧
      overview.kind = .file ∧ overview.name.toList = Path.fileName path.toList ∧
      notebook.Agrees overview below := by
  refine ⟨notebook.overview (Path.fileName path.toList), _, ?_, rfl, ?_, notebook.agrees _⟩
  · rw [entities_of_notebook content hpath, hread, Option.map_some, Option.getD_some, Notebook.entities,
      hlanguage]
  · rw [Notebook.overview, String.toList_ofList]

/-- A text cell, a code cell without text, and a code cell whose source is given line by line. -/
def mixedCells : String :=
  "\x7b\"cells\":[\x7b\"cell_type\":\"markdown\",\"source\":\"# A\\n\\nB\"\x7d,\x7b\"cell_type\":\"code\",\"source\":\" \\n\"\x7d,\x7b\"cell_type\":\"code\",\"source\":[\"class A:\\n\",\"  def f(self):\\n\",\"    pass\"]\x7d]\x7d"

theorem cells_agree_mixedCells :
    Path.extension "nb/a.ipynb".toList = "ipynb".toList ∧
      ∃ notebook, Notebook.read? mixedCells.toList = some notebook ∧ notebook.language = .python ∧
        ∃ overview below, standard.entities mixedCells "nb/a.ipynb" = .ok (overview :: below) ∧
          below.map (fun entity => (entity.name, entity.startLine, entity.endLine)) =
            [("cell_3", 5, 7), ("cell_3::A", 5, 7), ("cell_3::A.f", 6, 7)] ∧
          notebook.Agrees overview below := by
  have hpath : Path.extension "nb/a.ipynb".toList = "ipynb".toList := by decide
  have hnotebook : (Notebook.read? mixedCells.toList).map (fun found => (found.language, found.cells)) =
      some (.python, [⟨"markdown", "# A\n\nB".toList⟩, ⟨"code", " \n".toList⟩,
        ⟨"code", "class A:\n  def f(self):\n    pass".toList⟩]) := by
    rw [mixedCells, String.toList_ofList]
    decide +kernel
  obtain ⟨notebook, hread, hparts⟩ := Option.map_eq_some_iff.mp hnotebook
  obtain ⟨hlanguage, hcells⟩ := Prod.mk.inj hparts
  obtain ⟨overview, below, hentities, _, _, hagrees⟩ := cells_agree hpath hread hlanguage
  refine ⟨hpath, notebook, hread, hlanguage, overview, below, hentities, ?_, hagrees⟩
  have hvalue := hentities.symm.trans (entities_of_notebook mixedCells hpath)
  rw [hread, Option.map_some, Option.getD_some, Notebook.entities, hlanguage, hcells] at hvalue
  rw [(List.cons.inj (Except.ok.inj hvalue)).2]
  decide +kernel

end Catalog
end SourceIndex
