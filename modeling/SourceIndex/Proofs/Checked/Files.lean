import SourceIndex.Proofs.Checked.Declarations
import SourceIndex.Proofs.Entity.Ranges

/-! Files and notebooks. The names that a file imports and exports are the first captures of patterns all of whose
matches make this capture, as the call targets are; entities are cut to their budgets at the ends of characters, and the declarations are
found by line numbers that the text has. So the checked search for the entities of a file comes to its end without
a fault for every text and every path, with the entities of the file. -/

namespace SourceIndex.Checked
open Text Text.Pattern
open Step (ok_bind mapM_ok)

def importsOf (s : Chars) : Language → Checked (List Chars)
  | .script => do
    let found ← Symbols.scriptImports.mapM (captured · s)
    return distinctTrimmed found.flatten
  | .python => do
    let modules ← captured Symbols.pythonImport s
    let sources ← captured Symbols.pythonFrom s
    return distinctTrimmed ((modules.flatMap (splitOn ',')).filterMap (words · |>.head?) ++ sources)
  | .other => return []

def exportsOf (s : Chars) : Language → Checked (List Chars)
  | .script => do
    let declared ← captured Symbols.exportDeclaration s
    let listed ← captured Symbols.exportList s
    let default ← captured Symbols.exportDefaultName s
    return distinctTrimmed (declared ++ (listed.flatMap (splitOn ',')).map Symbols.exportedName ++ default)
  | .python => do return distinctTrimmed (← captured Symbols.pythonTopLevel s)
  | .other => return []

def symbolsOf (s : Chars) (language : Language) : Checked Symbols := do
  return ⟨← importsOf s language, ← exportsOf s language⟩

/-- The entity of the first `count` lines, which belongs to the file as such. -/
def topOf (name : Chars) (lines : List Chars) (count budget : Nat) (symbols : Symbols) : Checked Entity := do
  let content ← truncate budget (← textOf lines 0 (min lines.length count - 1))
  return { SourceFile.topOf name lines count budget symbols with content := String.ofList content }

def sourceEntities (content path : Chars) : Checked (List Entity) := do
  let ext := Path.extension path
  let language := Language.ofExtension ext
  let ls := lines content
  let symbols ← symbolsOf content language
  let name := Path.fileName path
  let header ← topOf name ls SourceFile.headerLines Entity.headerBudget symbols
  let full ←
    if SourceFile.headerLines < ls.length && ls.length ≤ SourceFile.fullLines then
      (· :: []) <$> topOf (name ++ ":full".toList) ls ls.length Entity.fullBudget symbols
    else pure []
  let spans ← declarations ls language (Language.hasComponents ext)
  return header :: full ++ (← spans.mapM (toEntity ls symbols))

def overview (notebook : Notebook) (fileName : Chars) : Checked Entity := do
  let symbols ← symbolsOf notebook.code notebook.language
  let content ← truncate Notebook.overviewBudget (notebook.overviewText fileName)
  return { notebook.overview fileName with
    content := String.ofList content
    imports := symbols.imports.map String.ofList
    exports := symbols.exports.map String.ofList }

/-- The entities of a code cell: itself and its declarations. -/
def cellEntities (language : Language) (position offset : Nat) (previous : Option Notebook.Cell)
    (cell : Notebook.Cell) : Checked (List Entity) := do
  let name := Notebook.cellName position
  let symbols ← symbolsOf cell.text language
  let content ← truncate Notebook.cellBudget cell.text
  let calls ← distinctCalls none cell.text
  let ls := lines cell.text
  let inner ← (← declarations ls language false).mapM (toEntity ls symbols)
  let own := { Notebook.cellEntity symbols name offset previous cell with
    content := String.ofList content
    calls := calls.map String.ofList }
  return own :: inner.map (Notebook.moved name offset)

/-- The entities of the cells from a position on, after `offset` lines. -/
def cellsFrom (language : Language) :
    Nat → Nat → Option Notebook.Cell → List Notebook.Cell → Checked (List Entity)
  | _, _, _, [] => return []
  | position, offset, previous, cell :: rest => do
    let found ← if cell.isListed then cellEntities language position offset previous cell else pure []
    return found ++ (← cellsFrom language (position + 1) (offset + cell.lineCount) (some cell) rest)

def notebookEntities (notebook : Notebook) (path : Chars) : Checked (List Entity) := do
  let first ← overview notebook (Path.fileName path)
  return first :: (← cellsFrom notebook.language 0 0 none notebook.cells)

/-- The entities of a file. -/
def entities (content path : Chars) : Checked (List Entity) :=
  if Path.extension path == "ipynb".toList then
    match Notebook.read? content with
    | some notebook => notebookEntities notebook path
    | none => return []
  else sourceEntities content path

/-! ### Symbols -/

theorem importsOf_eq (s : Chars) (language : Language) :
    importsOf s language = .ok (Symbols.importsOf s language) := by
  cases language with
  | script =>
      have hbinds : ∀ pattern ∈ Symbols.scriptImports, pattern.Binds 1 = true := by
        simp only [Symbols.scriptImports, List.forall_mem_cons]
        exact ⟨rfl, rfl, rfl, rfl, rfl, List.forall_mem_nil _⟩
      rw [importsOf, mapM_ok fun pattern hmem => captured_eq (hbinds pattern hmem) s, ok_bind,
        ← List.flatMap_def]
      rfl
  | python =>
      rw [importsOf, captured_eq rfl, ok_bind, captured_eq rfl]
      rfl
  | other => rfl

theorem exportsOf_eq (s : Chars) (language : Language) :
    exportsOf s language = .ok (Symbols.exportsOf s language) := by
  cases language with
  | script =>
      rw [exportsOf, captured_eq rfl, ok_bind, captured_eq rfl, ok_bind, captured_eq rfl]
      rfl
  | python =>
      rw [exportsOf, captured_eq rfl]
      rfl
  | other => rfl

theorem symbolsOf_eq (s : Chars) (language : Language) :
    symbolsOf s language = .ok (Symbols.ofText s language) := by
  rw [symbolsOf, importsOf_eq, ok_bind, exportsOf_eq]
  rfl

/-! ### Source files -/

theorem topOf_eq (name : Chars) (lines : List Chars) (count budget : Nat) (symbols : Symbols) :
    topOf name lines count budget symbols = .ok (SourceFile.topOf name lines count budget symbols) := by
  rw [topOf, textOf_eq (Nat.zero_le _), ok_bind, truncate_eq]
  rfl

/-- Every declaration ends on its first line or below, so that it has an entity. -/
theorem toEntities_eq (ls : List Chars) (language : Language) (withComponents : Bool) (symbols : Symbols) :
    (SourceFile.declarations ls language withComponents).mapM (toEntity ls symbols) =
      .ok ((SourceFile.declarations ls language withComponents).map (·.toEntity ls symbols)) :=
  mapM_ok fun _ hspan => toEntity_eq symbols (SourceFile.sound_of_mem_declarations hspan).start_le

theorem sourceEntities_eq (content path : Chars) :
    sourceEntities content path = .ok (SourceFile.entities content path) := by
  rw [sourceEntities, SourceFile.entities]
  simp only [symbolsOf_eq, topOf_eq, declarations_eq, toEntities_eq, ok_bind]
  split <;> rfl

/-! ### Notebooks -/

theorem overview_eq (notebook : Notebook) (fileName : Chars) :
    overview notebook fileName = .ok (notebook.overview fileName) := by
  rw [overview, symbolsOf_eq, ok_bind, truncate_eq]
  rfl

theorem cellEntities_eq (language : Language) (position offset : Nat) (previous : Option Notebook.Cell)
    (cell : Notebook.Cell) :
    cellEntities language position offset previous cell =
      .ok (Notebook.cellEntities language position offset previous cell) := by
  rw [cellEntities, Notebook.cellEntities]
  simp only [symbolsOf_eq, truncate_eq, distinctCalls_eq, declarations_eq, toEntities_eq, ok_bind, List.map_map]
  rfl

theorem cellsFrom_eq (language : Language) (position offset : Nat) (previous : Option Notebook.Cell)
    (cells : List Notebook.Cell) :
    cellsFrom language position offset previous cells =
      .ok (Notebook.entitiesFrom language position offset previous cells) := by
  induction cells generalizing position offset previous with
  | nil => rfl
  | cons cell rest ih =>
      rw [cellsFrom, Notebook.entitiesFrom, cellEntities_eq, ih]
      split <;> rfl

theorem notebookEntities_eq (notebook : Notebook) (path : Chars) :
    notebookEntities notebook path = .ok (notebook.entities path) := by
  rw [notebookEntities, overview_eq, ok_bind, cellsFrom_eq]
  rfl

/-- The search for the entities of a file comes to its end without a fault, whatever the text and the path, and
so does cutting a text to a budget; the offsets that a cut compares with the budget do not exceed the text. -/
theorem entities_without_fault :
    (∀ content path : String, ∃ found, Catalog.standard.entities content path = .ok found ∧
      entities content.toList path.toList = .ok found) ∧
    ∀ budget s, truncate budget s = .ok (Text.truncate budget s) ∧
      ∀ e ∈ structuralEnds (takeBytes budget s), e ≤ byteLength s := by
  refine ⟨fun content path => ?_, fun budget s => ⟨truncate_eq budget s, fun e he => ?_⟩⟩
  · rw [entities]
    by_cases hpath : Path.extension path.toList = "ipynb".toList
    · refine ⟨_, Catalog.entities_of_notebook content hpath, ?_⟩
      rw [if_pos (beq_iff_eq.mpr hpath)]
      cases Notebook.read? content.toList with
      | none => rfl
      | some notebook => exact notebookEntities_eq notebook path.toList
    · refine ⟨_, Catalog.entities_of_source content hpath, ?_⟩
      rw [if_neg (by simpa using hpath)]
      exact sourceEntities_eq content.toList path.toList
  · exact Nat.le_trans (structuralEnd_le he) (prefix_byteLength_le (isWindow_takeBytes budget s).isPrefix)

end SourceIndex.Checked
