import SourceIndex.Proofs.Entity.Cells
import SourceIndex.Proofs.Text.Distinct
import SourceIndex.Proofs.Text.Truncation

/-! The limits of entities. Whatever a file holds, be it a notebook or not, each of its entities calls at most
fifty functions, names what it imports and exports once, has a docstring of moderate length or none, and
keeps the bytes that its kind allows, with the mark of a cut beside them. -/

namespace SourceIndex
open Text

/-! ### Calls -/

namespace Calls

/-- Names of some calls of a text, each once, in the order in which the text has them first. -/
structure Listed (raw : Chars) (names : List Chars) : Prop where
  length_le : names.length ≤ 50
  nodup : names.Nodup
  ordered : names.Pairwise fun a b => (targets raw).idxOf a < (targets raw).idxOf b
  mem_targets : ∀ name ∈ names, name ∈ targets raw
  not_mem_stopList : ∀ name ∈ names, name ∉ stopList

theorem listed_nil (raw : Chars) : Listed raw [] where
  length_le := Nat.zero_le 50
  nodup := List.nodup_nil
  ordered := List.Pairwise.nil
  mem_targets _ h := absurd h List.not_mem_nil
  not_mem_stopList _ h := absurd h List.not_mem_nil

theorem listed_distinct (skipped : Option Chars) (raw : Chars) : Listed raw (distinct skipped raw) := by
  have hordered : (distinct skipped raw).Pairwise fun a b =>
      (targets raw).idxOf a < (targets raw).idxOf b :=
    (pairwise_idxOf_eraseDups_filter _ (targets raw)).sublist (List.take_sublist _ _)
  have hkept : ∀ name ∈ distinct skipped raw, name ∈ targets raw ∧ name ∉ stopList := by
    intro name hname
    have hfiltered := List.mem_eraseDups.mp (List.mem_of_mem_take hname)
    simp only [List.mem_filter, Bool.and_eq_true, Bool.not_eq_true', List.contains_eq_mem,
      decide_eq_false_iff_not] at hfiltered
    exact ⟨hfiltered.1, hfiltered.2.1⟩
  exact {
    length_le := List.length_take_le limit _
    nodup := List.Pairwise.imp (fun {a b} hlt (heq : a = b) => by simp [heq] at hlt) hordered
    ordered := hordered
    mem_targets := fun name hname => (hkept name hname).1
    not_mem_stopList := fun name hname => (hkept name hname).2 }

end Calls

/-! ### Imports and exports -/

namespace Symbols

theorem distinct_imports (text : Chars) (language : Language) : Distinct (ofText text language).imports := by
  cases language with
  | script => exact distinct_distinctTrimmed _
  | python => exact distinct_distinctTrimmed _
  | other => exact Distinct.nil

theorem distinct_exports (text : Chars) (language : Language) : Distinct (ofText text language).exports := by
  cases language with
  | script => exact distinct_distinctTrimmed _
  | python => exact distinct_distinctTrimmed _
  | other => exact Distinct.nil

end Symbols

/-- The one name of a declaration, where it is among the names of the file. -/
theorem Text.Distinct.filter_toList {names : List Chars} (h : Distinct names) (name : Option Chars) :
    Distinct (name.toList.filter names.contains) := by
  cases name with
  | none => exact Distinct.nil
  | some name =>
      by_cases hmem : names.contains name = true
      · rw [Option.toList_some, List.filter_cons_of_pos hmem, List.filter_nil]
        exact h.sublist (List.singleton_sublist.mpr (List.contains_iff_mem.mp hmem))
      · rw [Option.toList_some, List.filter_cons_of_neg hmem, List.filter_nil]
        exact Distinct.nil

/-! ### Entities -/

theorem Docstring.limited_bind {α : Type} (source : Option α) {doc? : α → Option Chars}
    (h : ∀ a, Limited (doc? a)) : Limited (source.bind doc?) := by
  cases source with
  | none => exact limited_none
  | some a => exact h a

namespace Entity

/-- The entity keeps to the limits that go with a budget; its content and its calls are those of the text
`raw`. -/
structure Limited (budget : Nat) (raw : Chars) (entity : Entity) : Prop where
  content_eq : entity.content.toList = truncate budget raw
  content_le : byteLength entity.content.toList ≤ budget + 16
  calls : Calls.Listed raw (entity.calls.map String.toList)
  doc_bounds : ∀ text, entity.doc = some text → 11 ≤ text.length ∧ text.length ≤ 500
  imports : Distinct (entity.imports.map String.toList)
  exports : Distinct (entity.exports.map String.toList)

theorem map_toList_map_ofList (texts : List Chars) : (texts.map String.ofList).map String.toList = texts := by
  rw [List.map_map]
  exact (List.map_congr_left fun _ _ => String.toList_ofList).trans (List.map_id texts)

/-- An entity put together from texts that keep to the limits keeps to them. -/
theorem limited_of {entity : Entity} {budget : Nat} {raw : Chars} {calls imports exports : List Chars}
    {doc : Option Chars} (hcontent : entity.content = String.ofList (truncate budget raw))
    (hcalls : entity.calls = calls.map String.ofList) (hdoc : entity.doc = doc.map String.ofList)
    (himports : entity.imports = imports.map String.ofList)
    (hexports : entity.exports = exports.map String.ofList) (hlisted : Calls.Listed raw calls)
    (hlimited : Docstring.Limited doc) (hdistinctImports : Distinct imports)
    (hdistinctExports : Distinct exports) : entity.Limited budget raw where
  content_eq := by rw [hcontent, String.toList_ofList]
  content_le := by
    rw [hcontent, String.toList_ofList]
    exact byteLength_truncate_le budget raw
  calls := by rwa [hcalls, map_toList_map_ofList]
  doc_bounds text htext := by
    rw [hdoc, Option.map_eq_some_iff] at htext
    obtain ⟨kept, hkept, rfl⟩ := htext
    rw [String.length_ofList]
    exact hlimited kept hkept
  imports := by rwa [himports, map_toList_map_ofList]
  exports := by rwa [hexports, map_toList_map_ofList]

end Entity

theorem SourceFile.limited_topOf (name : Chars) (ls : List Chars) (count budget : Nat) (text : Chars)
    (language : Language) :
    (topOf name ls count budget (Symbols.ofText text language)).Limited budget
      (Entity.numbered ls 1 (max (min ls.length count) 1)) := by
  have hcontent : (topOf name ls count budget (Symbols.ofText text language)).content =
      String.ofList (truncate budget (Entity.numbered ls 1 (max (min ls.length count) 1))) := by
    rw [← String.toList_inj, String.toList_ofList]
    exact (covers_topOf name ls count budget (Symbols.ofText text language)).content_eq
  have hcalls : (topOf name ls count budget (Symbols.ofText text language)).calls =
      List.map String.ofList [] := rfl
  exact Entity.limited_of hcontent hcalls rfl rfl rfl (Calls.listed_nil _) Docstring.limited_none
    (Symbols.distinct_imports text language) (Symbols.distinct_exports text language)

theorem Span.limited_toEntity {ls : List Chars} {span : Span} (h : span.Sound ls.length) (text : Chars)
    (language : Language) :
    (span.toEntity ls (Symbols.ofText text language)).Limited (Entity.memberBudget span.kind)
      (Entity.numbered ls (span.start + 1) (span.stop + 1)) := by
  rw [← Entity.textOf_eq_numbered]
  exact Entity.limited_of rfl rfl rfl rfl rfl (Calls.listed_distinct _ _) h.doc_limited
    (Symbols.distinct_imports text language)
    ((Symbols.distinct_exports text language).filter_toList span.exported)

/-- The text that an entity of a file keeps the limits on is that of its lines. -/
theorem SourceFile.limited_entities {content path : Chars} {position : Nat} {entity : Entity}
    (h : (entities content path)[position]? = some entity) :
    entity.Limited (budgetAt position entity)
      (Entity.numbered (lines content) entity.startLine entity.endLine) := by
  rcases entities_cases h with ⟨rfl, rfl⟩ | ⟨rfl, rfl⟩ | ⟨span, hspan, rfl⟩
  · exact limited_topOf _ _ _ _ _ _
  · exact limited_topOf _ _ _ _ _ _
  · have hsound := sound_of_mem_declarations hspan
    rw [budgetAt_toEntity hsound]
    exact Span.limited_toEntity hsound _ _

/-! ### Notebooks -/

namespace Notebook

/-- How many bytes an entity of a notebook keeps. The name of a cell has no colon, and that of a declaration
in a cell has two. -/
def budgetOf (entity : Entity) : Nat :=
  match entity.kind with
  | .file => 3000
  | .classDef => 2500
  | .function => if ':' ∈ entity.name.toList then 1500 else 2000
  | .method | .component => 1500

/-- Moving an entity changes its name and its lines alone. -/
theorem limited_moved {entity : Entity} {budget : Nat} {raw : Chars} (h : entity.Limited budget raw)
    (name : Chars) (offset : Nat) : (moved name offset entity).Limited budget raw where
  content_eq := h.content_eq
  content_le := h.content_le
  calls := h.calls
  doc_bounds := h.doc_bounds
  imports := h.imports
  exports := h.exports

theorem limited_overview (notebook : Notebook) (fileName : Chars) :
    (notebook.overview fileName).Limited 3000 (notebook.overviewText fileName) := by
  have hcalls : (notebook.overview fileName).calls = List.map String.ofList [] := rfl
  exact Entity.limited_of rfl hcalls rfl rfl rfl (Calls.listed_nil _)
    (Docstring.limited_bind _ Docstring.limited_bounded?)
    (Symbols.distinct_imports notebook.code notebook.language)
    (Symbols.distinct_exports notebook.code notebook.language)

theorem limited_cellEntity (language : Language) (name : Chars) (offset : Nat) (previous : Option Cell)
    (cell : Cell) :
    (cellEntity (Symbols.ofText cell.text language) name offset previous cell).Limited 2000 cell.text := by
  have hexports : (cellEntity (Symbols.ofText cell.text language) name offset previous cell).exports =
      List.map String.ofList [] := rfl
  exact Entity.limited_of rfl rfl rfl rfl hexports (Calls.listed_distinct none _)
    (Docstring.limited_bind _ fun _ => Docstring.limited_bounded? _) (Symbols.distinct_imports _ _)
    Distinct.nil

/-- An entity of a cell is that of the cell as such, or that of a declaration, moved. -/
theorem limited_of_mem_cellEntities {language : Language} {position offset : Nat} {previous : Option Cell}
    {cell : Cell} {entity : Entity} (h : entity ∈ cellEntities language position offset previous cell) :
    ∃ raw, entity.Limited (budgetOf entity) raw := by
  rw [cellEntities, List.mem_cons, List.mem_map] at h
  rcases h with rfl | ⟨span, hspan, rfl⟩
  · have hbudget : budgetOf (cellEntity (Symbols.ofText cell.text language) (cellName position) offset
        previous cell) = 2000 := by
      simp only [budgetOf, cellEntity, String.toList_ofList, if_neg (colon_not_mem_cellName position)]
    rw [hbudget]
    exact ⟨_, limited_cellEntity _ _ _ _ _⟩
  · have hsound := SourceFile.sound_of_mem_declarations hspan
    have hlimited := Span.limited_toEntity hsound cell.text language
    have hbudget : budgetOf (moved (cellName position) offset
        (span.toEntity (lines cell.text) (Symbols.ofText cell.text language))) =
          Entity.memberBudget span.kind := by
      rw [budgetOf, if_pos (colon_mem_moved _ _ _)]
      simp only [moved, Span.toEntity]
      cases hkind : span.kind with
      | file => exact absurd hkind hsound.kind_ne
      | classDef | method | function | component => rfl
    rw [hbudget]
    exact ⟨_, limited_moved hlimited _ _⟩

theorem limited_of_mem_entities {notebook : Notebook} {path : Chars} {entity : Entity}
    (h : entity ∈ notebook.entities path) : ∃ raw, entity.Limited (budgetOf entity) raw := by
  rw [entities, List.mem_cons] at h
  rcases h with rfl | hcell
  · exact ⟨_, limited_overview notebook _⟩
  · obtain ⟨_, _, _, _, _, hentity⟩ := exists_of_mem hcell
    exact limited_of_mem_cellEntities hentity

end Notebook

namespace Catalog

/-- How many bytes the entity at a position among those of a file keeps. -/
def budgetAt (path : String) (position : Nat) (entity : Entity) : Nat :=
  if Path.extension path.toList = "ipynb".toList then Notebook.budgetOf entity
  else SourceFile.budgetAt position entity

/-- Every file has entities, and each of them keeps to the limits that go with its budget; outside of
notebooks what is limited is the text of its lines. -/
theorem entities_limited (content path : String) :
    ∃ entities, standard.entities content path = .ok entities ∧
      ∀ (position : Nat) entity, entities[position]? = some entity →
        ∃ raw, entity.Limited (budgetAt path position entity) raw ∧
          (Path.extension path.toList ≠ "ipynb".toList →
            raw = Entity.numbered (lines content.toList) entity.startLine entity.endLine) := by
  by_cases hpath : Path.extension path.toList = "ipynb".toList
  · refine ⟨_, entities_of_notebook content hpath, fun position entity h => ?_⟩
    rw [budgetAt, if_pos hpath]
    have hmem := List.mem_of_getElem? h
    cases hread : Notebook.read? content.toList with
    | none =>
        rw [hread] at hmem
        cases hmem
    | some notebook =>
        rw [hread] at hmem
        obtain ⟨raw, hlimited⟩ := Notebook.limited_of_mem_entities hmem
        exact ⟨raw, hlimited, fun hsource => absurd hpath hsource⟩
  · refine ⟨_, entities_of_source content hpath, fun position entity h => ?_⟩
    rw [budgetAt, if_neg hpath]
    exact ⟨_, SourceFile.limited_entities h, fun _ => rfl⟩

end Catalog
end SourceIndex
