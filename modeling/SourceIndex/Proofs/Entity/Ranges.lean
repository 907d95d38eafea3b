import SourceIndex.Entity.Catalog
import SourceIndex.Proofs.Entity.Declarations

/-! Where the entities of a source file stand. An entity is one for the file as such or that of a declaration;
its lines are lines of the file, and its content is the text of just these lines, cut to the budget of what
it stands for. -/

namespace SourceIndex
open Text

namespace Entity

/-- The lines numbered `first` to `last`, counted from 1, as one text. -/
def numbered (ls : List Chars) (first last : Nat) : Chars :=
  unlines ((ls.drop (first - 1)).take (last + 1 - first))

theorem textOf_eq_numbered (ls : List Chars) (start stop : Nat) :
    textOf ls start stop = numbered ls (start + 1) (stop + 1) := by
  simp only [textOf, numbered, Nat.add_sub_cancel, Nat.reduceSubDiff]

/-- The entity stands on lines of a text, and holds these within the budget. A text without lines counts as
one empty line. -/
structure Covers (ls : List Chars) (budget : Nat) (entity : Entity) : Prop where
  one_le_start : 1 ≤ entity.startLine
  start_le_end : entity.startLine ≤ entity.endLine
  end_le_count : entity.endLine ≤ max 1 ls.length
  content_eq : entity.content.toList =
    truncate budget (numbered ls entity.startLine entity.endLine)

end Entity

theorem Span.covers_toEntity {ls : List Chars} {span : Span} (h : span.Sound ls.length)
    (symbols : Symbols) :
    (span.toEntity ls symbols).Covers ls (Entity.memberBudget span.kind) where
  one_le_start := Nat.le_add_left 1 span.start
  start_le_end := Nat.add_le_add_right h.start_le 1
  end_le_count := Nat.le_trans h.stop_lt (Nat.le_max_right 1 ls.length)
  content_eq := by
    simp only [Span.toEntity, String.toList_ofList, Entity.textOf_eq_numbered]

namespace SourceFile

theorem covers_topOf (name : Chars) (ls : List Chars) (count budget : Nat) (symbols : Symbols) :
    (topOf name ls count budget symbols).Covers ls budget where
  one_le_start := Nat.le_refl 1
  start_le_end := Nat.le_max_right _ 1
  end_le_count := by
    simp only [topOf]
    omega
  content_eq := by
    have hlast : min ls.length count - 1 + 1 = max (min ls.length count) 1 := by omega
    simp only [topOf, String.toList_ofList, Entity.textOf_eq_numbered, hlast]

section
variable (content path : Chars)

/-- What a file imports and exports. -/
def symbolsOf : Symbols := Symbols.ofText content (Language.ofExtension (Path.extension path))

/-- The declarations of a file. -/
def spansOf : List Span :=
  declarations (lines content) (Language.ofExtension (Path.extension path))
    (Language.hasComponents (Path.extension path))

/-- The entity for the first lines of a file. -/
def headerOf : Entity :=
  topOf (Path.fileName path) (lines content) headerLines Entity.headerBudget (symbolsOf content path)

/-- The entity for the whole of a file. -/
def fullOf : Entity :=
  topOf (Path.fileName path ++ ":full".toList) (lines content) (lines content).length Entity.fullBudget
    (symbolsOf content path)

end

/-- The first entity of a file is its header. The second one may be for the whole file, and all others are
those of declarations. -/
theorem entities_cases {content path : Chars} {position : Nat} {entity : Entity}
    (h : (entities content path)[position]? = some entity) :
    (position = 0 ∧ entity = headerOf content path) ∨
      (position = 1 ∧ entity = fullOf content path) ∨
      ∃ span ∈ spansOf content path, entity = span.toEntity (lines content) (symbolsOf content path) := by
  have hdeclared : ∀ p : Nat, ((spansOf content path).map
      (·.toEntity (lines content) (symbolsOf content path)))[p]? = some entity →
      ∃ span ∈ spansOf content path,
        entity = span.toEntity (lines content) (symbolsOf content path) := by
    intro p hp
    obtain ⟨span, hspan, rfl⟩ := List.mem_map.mp (List.mem_of_getElem? hp)
    exact ⟨span, hspan, rfl⟩
  cases position with
  | zero =>
      left
      cases h
      exact ⟨rfl, rfl⟩
  | succ position =>
      right
      simp only [entities, List.cons_append, List.getElem?_cons_succ] at h
      split at h
      · cases position with
        | zero =>
            left
            cases h
            exact ⟨rfl, rfl⟩
        | succ position => exact Or.inr (hdeclared position h)
      · exact Or.inr (hdeclared position h)

/-- How many bytes the entity at a position among those of a file keeps. -/
def budgetAt (position : Nat) (entity : Entity) : Nat :=
  match entity.kind with
  | .file => if position = 0 then 2000 else 4000
  | .classDef => 2500
  | .method | .function | .component => 1500

theorem budgetAt_toEntity {ls : List Chars} {span : Span} (h : span.Sound ls.length) (symbols : Symbols)
    (position : Nat) :
    budgetAt position (span.toEntity ls symbols) = Entity.memberBudget span.kind := by
  simp only [budgetAt, Span.toEntity]
  cases hkind : span.kind with
  | file => exact absurd hkind h.kind_ne
  | classDef | method | function | component => rfl

theorem covers_entities {content path : Chars} {position : Nat} {entity : Entity}
    (h : (entities content path)[position]? = some entity) :
    entity.Covers (lines content) (budgetAt position entity) := by
  rcases entities_cases h with ⟨rfl, rfl⟩ | ⟨rfl, rfl⟩ | ⟨span, hspan, rfl⟩
  · exact covers_topOf _ _ _ _ _
  · exact covers_topOf _ _ _ _ _
  · have hsound := sound_of_mem_declarations hspan
    rw [budgetAt_toEntity hsound]
    exact Span.covers_toEntity hsound _

/-- An entity of kind file is the header, or the one for the whole file. -/
theorem name_of_kind_file {content path : Chars} {position : Nat} {entity : Entity}
    (h : (entities content path)[position]? = some entity) (hkind : entity.kind = .file) :
    (position = 0 ∧ entity.name.toList = Path.fileName path) ∨
      (position = 1 ∧ entity.name.toList = Path.fileName path ++ ":full".toList) := by
  rcases entities_cases h with ⟨rfl, rfl⟩ | ⟨rfl, rfl⟩ | ⟨span, hspan, rfl⟩
  · exact Or.inl ⟨rfl, String.toList_ofList⟩
  · exact Or.inr ⟨rfl, String.toList_ofList⟩
  · exact absurd hkind (sound_of_mem_declarations hspan).kind_ne

end SourceFile

namespace Catalog

theorem entities_of_notebook (content : String) {path : String}
    (hpath : Path.extension path.toList = "ipynb".toList) :
    standard.entities content path =
      .ok (((Notebook.read? content.toList).map (·.entities path.toList)).getD []) := by
  simp only [entities, standard, Extractor.notebooks, hpath, List.find?_cons, beq_self_eq_true]

theorem entities_of_source (content : String) {path : String}
    (hpath : Path.extension path.toList ≠ "ipynb".toList) :
    standard.entities content path = .ok (SourceFile.entities content.toList path.toList) := by
  have hserves : (Path.extension path.toList == "ipynb".toList) = false := beq_false_of_ne hpath
  simp only [entities, standard, Extractor.notebooks, List.find?_cons, hserves, List.find?_nil]

/-- Every file that is not a notebook has entities, and each of them covers lines of the file within the
budget of its kind; of the two that may stand for the file as such the header comes first. -/
theorem entities_cover (content : String) {path : String}
    (hpath : Path.extension path.toList ≠ "ipynb".toList) :
    ∃ entities, standard.entities content path = .ok entities ∧
      ∀ (position : Nat) entity, entities[position]? = some entity →
        entity.Covers (lines content.toList) (SourceFile.budgetAt position entity) ∧
        (entity.kind = .file → (position = 0 ∧ entity.name.toList = Path.fileName path.toList) ∨
          (position = 1 ∧ entity.name.toList = Path.fileName path.toList ++ ":full".toList)) := by
  refine ⟨SourceFile.entities content.toList path.toList, entities_of_source content hpath,
    fun position entity h => ?_⟩
  exact ⟨SourceFile.covers_entities h, SourceFile.name_of_kind_file h⟩

/-- A class with one method: the header, the class and the method each stand on lines of their own. -/
theorem entities_cover_class :
    Path.extension "src/a.ts".toList ≠ "ipynb".toList ∧
      ∃ entities, standard.entities "class A \x7b\n  run() \x7b\n  \x7d\n\x7d\n" "src/a.ts" = .ok entities ∧
        entities.map (fun entity => (entity.startLine, entity.endLine)) = [(1, 4), (1, 4), (2, 3)] ∧
        ∀ (position : Nat) entity, entities[position]? = some entity →
          entity.Covers (lines "class A \x7b\n  run() \x7b\n  \x7d\n\x7d\n".toList)
            (SourceFile.budgetAt position entity) := by
  have hpath : Path.extension "src/a.ts".toList ≠ "ipynb".toList := by decide
  obtain ⟨entities, hentities, hcover⟩ :=
    entities_cover "class A \x7b\n  run() \x7b\n  \x7d\n\x7d\n" hpath
  refine ⟨hpath, entities, hentities, ?_, fun position entity h => (hcover position entity h).1⟩
  have hvalue := entities_of_source "class A \x7b\n  run() \x7b\n  \x7d\n\x7d\n" hpath
  cases hentities.symm.trans hvalue
  decide +kernel

end Catalog
end SourceIndex
