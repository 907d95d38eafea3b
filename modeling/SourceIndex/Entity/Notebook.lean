import SourceIndex.Entity.SourceFile
import SourceIndex.Json.Decode

/-!
Notebooks: JSON documents of cells. A notebook has an overview entity, one entity for each code cell
with text, and below it the declarations of the cell, named after it. Cells are numbered from 1 over
all kinds, and lines are counted as if the texts of all cells stood one after the other.
-/

namespace SourceIndex
open Text

structure Notebook.Cell where
  kind : String
  text : Chars
  deriving DecidableEq, Repr

structure Notebook where
  cells : List Notebook.Cell
  metadata : Json

namespace Notebook

/-- The bytes kept of the overview. -/
def overviewBudget : Nat := 3000

/-- The bytes kept of a code cell. -/
def cellBudget : Nat := 2000

/-- How many lines of each code cell the overview shows. -/
def previewLines : Nat := 3

/-- The kernel language of a notebook that names none. -/
def defaultLanguage : String := "python"

namespace Cell
open Json.Decoder

/-- The text of a cell: one string, or the strings of its lines. -/
def source : Json.Decoder Chars := fun depth node => do
  match ← any depth node with
  | .string s => .ok s.toList
  | .array items =>
    match items.mapM Json.string? with
    | some parts => .ok (parts.flatMap String.toList)
    | none => .error .shape
  | _ => .error .shape

def decoder : Json.Decoder Cell := fun depth node => do
  let found ← record [field "cell_type" string .never, field "source" source .anywhere] depth node
  let kind ← found.get "cell_type" string
  let text ← found.getD "source" source []
  .ok ⟨kind, text⟩

def isCode (cell : Cell) : Bool := cell.kind == "code"

def isMarkdown (cell : Cell) : Bool := cell.kind == "markdown"

/-- A code cell with text. -/
def isListed (cell : Cell) : Bool := cell.isCode && !isBlankText cell.text

def lineCount (cell : Cell) : Nat := (lines cell.text).length

/-- The description that a text cell gives to what follows it. -/
def doc? (cell : Cell) : Option Chars := Docstring.bounded? (trim cell.text)

/-- The first lines with text, without blanks at their ends. -/
def preview (cell : Cell) : List Chars :=
  (((lines cell.text).map trimEnd).filter (!isBlankText ·)).take previewLines

end Cell

open Json.Decoder in
def decoder : Json.Decoder Notebook := fun depth node => do
  let cells := list Cell.decoder
  let found ← record [field "cells" cells .anywhere, field "metadata" any .anywhere] depth node
  .ok ⟨← found.getD "cells" cells [], ← found.getD "metadata" any .null⟩

/-- The notebook that a text holds, if it is one. -/
def read? (content : Chars) : Option Notebook := (decoder.text content).toOption

/-- The value at two field names below the metadata. -/
def setting? (notebook : Notebook) (outer inner : String) : Option Json :=
  (notebook.metadata.field? outer).bind (·.field? inner)

/-- The kernel's language; its own statement counts even where it is no text. -/
def language (notebook : Notebook) : Language :=
  let stated := notebook.setting? "kernelspec" "language" <|> notebook.setting? "language_info" "name"
  Language.ofName ((stated.bind Json.string?).getD defaultLanguage).toList

/-- The name of the cell at a position counted from 0. -/
def cellName (position : Nat) : Chars := "cell_".toList ++ (toString (position + 1)).toList

/-- The text cells before the first code cell, trimmed, without blank ones. -/
def introduction (notebook : Notebook) : List Chars :=
  (((notebook.cells.takeWhile (!·.isCode)).filter (·.isMarkdown)).map (trim ·.text)).filter
    (!·.isEmpty)

/-- The text of the overview: the title, the introduction and the start of each code cell. -/
def overviewText (notebook : Notebook) (fileName : Chars) : Chars :=
  let title := "# Notebook: ".toList ++ fileName ++ ['\n']
  let intro := notebook.introduction.flatMap fun text => '\n' :: text ++ ['\n']
  let listed := notebook.cells.zipIdx.filter (·.1.isListed)
  let previews := listed.flatMap fun (cell, i) =>
    "\n[".toList ++ cellName i ++ "]\n".toList ++ unlines cell.preview ++ ['\n']
  title ++ intro ++ previews

def totalLines (notebook : Notebook) : Nat :=
  notebook.cells.foldr (fun cell count => cell.lineCount + count) 0

/-- The texts of all code cells as one. -/
def code (notebook : Notebook) : Chars :=
  unlines ((notebook.cells.filter (·.isCode)).map Cell.text)

def overview (notebook : Notebook) (fileName : Chars) : Entity :=
  let symbols := Symbols.ofText notebook.code notebook.language
  { kind := .file
    name := String.ofList fileName
    startLine := 1
    endLine := max notebook.totalLines 1
    content := String.ofList (truncate overviewBudget (notebook.overviewText fileName))
    imports := symbols.imports.map String.ofList
    exports := symbols.exports.map String.ofList
    parent := none
    calls := []
    doc := (notebook.introduction.head?.bind Docstring.bounded?).map String.ofList }

/-- The entity of a code cell whose text starts after `offset` lines and which `previous` precedes. -/
def cellEntity (symbols : Symbols) (name : Chars) (offset : Nat) (previous : Option Cell)
    (cell : Cell) : Entity :=
  { kind := .function
    name := String.ofList name
    startLine := offset + 1
    endLine := offset + max cell.lineCount 1
    content := String.ofList (truncate cellBudget cell.text)
    imports := symbols.imports.map String.ofList
    exports := []
    parent := none
    calls := (Calls.ofText cell.text).map String.ofList
    doc := ((previous.filter Cell.isMarkdown).bind Cell.doc?).map String.ofList }

/-- An entity of a cell's text, moved to its place in the notebook. -/
def moved (name : Chars) (offset : Nat) (entity : Entity) : Entity :=
  { entity with
    name := String.ofList (name ++ "::".toList) ++ entity.name
    startLine := entity.startLine + offset
    endLine := entity.endLine + offset }

/-- The entities of a code cell: itself and its declarations. -/
def cellEntities (language : Language) (position offset : Nat) (previous : Option Cell)
    (cell : Cell) : List Entity :=
  let name := cellName position
  let symbols := Symbols.ofText cell.text language
  let ls := lines cell.text
  cellEntity symbols name offset previous cell ::
    (SourceFile.declarations ls language false).map fun span =>
      moved name offset (span.toEntity ls symbols)

/-- The entities of the cells from a position on, after `offset` lines. -/
def entitiesFrom (language : Language) :
    Nat → Nat → Option Cell → List Cell → List Entity
  | _, _, _, [] => []
  | position, offset, previous, cell :: rest =>
    (if cell.isListed then cellEntities language position offset previous cell else []) ++
      entitiesFrom language (position + 1) (offset + cell.lineCount) (some cell) rest

def entities (notebook : Notebook) (path : Chars) : List Entity :=
  notebook.overview (Path.fileName path) :: entitiesFrom notebook.language 0 0 none notebook.cells

end Notebook
end SourceIndex
