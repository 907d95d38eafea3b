import SourceIndex.Archive.PathFilter
import SourceIndex.Proofs.Archive.Globs
import SourceIndex.Proofs.Step

/-! Which paths the filter of an archive accepts. The globs that are always excluded are of three shapes, and each
shape says something about the components of a path or about its end; those for lock files, style sheets and source
maps only match paths without the extension of a source file. Further globs take away the paths that they match. -/

namespace SourceIndex.Archive.PathFilter
open SourceIndex.Path Text

/-- Directories whose contents are never indexed: dependencies, build output, version control data and caches. -/
def deniedDirectories : List String :=
  ["node_modules", "vendor", "bower_components", ".venv", "venv", "__pycache__", "dist", "build", "out", ".next",
    ".nuxt", "target", "coverage", ".git", ".svn", ".hg", ".cache", ".pytest_cache", ".mypy_cache", ".turbo"]

def lockFiles : List String :=
  ["package-lock.json", "yarn.lock", "pnpm-lock.yaml", "Cargo.lock", "poetry.lock", "composer.lock", "Gemfile.lock"]

def generatedEndings : List String := [".min.js", ".min.css", ".map", ".bundle.js"]

theorem alwaysExcluded_eq : alwaysExcluded =
    deniedDirectories.map ("**/" ++ · ++ "/**") ++ lockFiles.map ("**/" ++ ·) ++
      generatedEndings.map ("**/*" ++ ·) := by
  decide +kernel

/-- The path is one of a source file, below no denied directory and not generated. -/
structure Indexed (path : Chars) : Prop where
  directories : ∀ name ∈ deniedDirectories, name.toList ∉ (components path).dropLast
  minified : ¬ ".min.js".toList <:+ path
  bundle : ¬ ".bundle.js".toList <:+ path
  extension : String.ofList (extension path) ∈ sourceExtensions

instance (path : Chars) : Decidable (Indexed path) :=
  decidable_of_iff ((∀ name ∈ deniedDirectories, name.toList ∉ (components path).dropLast) ∧
      ¬ ".min.js".toList <:+ path ∧ ¬ ".bundle.js".toList <:+ path ∧
      String.ofList (extension path) ∈ sourceExtensions)
    ⟨fun h => ⟨h.1, h.2.1, h.2.2.1, h.2.2.2⟩, fun h => ⟨h.directories, h.minified, h.bundle, h.extension⟩⟩

/-- The glob that the text is matches the path. -/
def Excludes (text : String) (path : Chars) : Prop :=
  ∃ glob, Glob.parse? text = some glob ∧ glob.Matches (encode path)

theorem excludes_iff {text : String} {glob : Glob} {path : Chars} (h : Glob.parse? text = some glob) :
    Excludes text path ↔ glob.Matches (encode path) := by
  rw [Excludes, h]
  simp

/-! ### Reading the globs -/

/-- The globs of texts that are some. -/
def read (texts : List String) : List Glob := texts.map fun text => (Glob.parse? text).getD []

theorem read_append (texts more : List String) : read (texts ++ more) = read texts ++ read more := List.map_append

theorem globsOf_eq {texts : List String} (h : ∀ text ∈ texts, (Glob.parse? text).isSome) :
    globsOf texts = .ok (read texts) := by
  refine Step.mapM_ok fun text htext => ?_
  obtain ⟨glob, hglob⟩ := Option.isSome_iff_exists.mp (h text htext)
  rw [hglob]
  rfl

theorem accepts_read_iff {texts : List String} (h : ∀ text ∈ texts, (Glob.parse? text).isSome) (maxBytes : Nat)
    (path : Chars) : (PathFilter.mk (read texts) maxBytes).accepts path = true ↔
      (∀ text ∈ texts, ¬Excludes text path) ∧ String.ofList (extension path) ∈ sourceExtensions := by
  rw [accepts, Bool.and_eq_true, List.contains_iff_mem, Bool.not_eq_true', excludes, List.any_eq_false, read,
    List.forall_mem_map]
  refine and_congr_left fun _ => forall₂_congr fun text htext => not_congr ?_
  obtain ⟨glob, hglob⟩ := Option.isSome_iff_exists.mp (h text htext)
  rw [excludes_iff hglob, Glob.holds_iff, hglob, Option.getD_some]

/-! ### The globs that are always excluded -/

theorem deniedDirectories_plain :
    ∀ name ∈ deniedDirectories, name.toList.all Glob.isPlain = true ∧ '/' ∉ name.toList := by
  decide +kernel

theorem lockFiles_plain : ∀ name ∈ lockFiles, name.toList ≠ [] ∧ name.toList.all Glob.isPlain = true := by
  decide +kernel

theorem generatedEndings_plain :
    ∀ text ∈ generatedEndings, text.toList.head? = some '.' ∧ text.toList.all Glob.isPlain = true := by
  decide +kernel

theorem parse?_directory {name : String} (hname : name ∈ deniedDirectories) :
    Glob.parse? ("**/" ++ name ++ "/**") = some (Glob.below name.toList) :=
  Glob.parse?_below (deniedDirectories_plain name hname).1

theorem parse?_lockFile {name : String} (hname : name ∈ lockFiles) :
    Glob.parse? ("**/" ++ name) = some (Glob.named name.toList) :=
  Glob.parse?_named (lockFiles_plain name hname).2

theorem parse?_generated {text : String} (htext : text ∈ generatedEndings) :
    Glob.parse? ("**/*" ++ text) = some (Glob.ending text.toList) :=
  Glob.parse?_ending (generatedEndings_plain text htext).2

/-- What holds of all globs that are always excluded holds of the three shapes of them. -/
theorem forall_mem_alwaysExcluded {p : String → Prop} : (∀ text ∈ alwaysExcluded, p text) ↔
    (∀ name ∈ deniedDirectories, p ("**/" ++ name ++ "/**")) ∧ (∀ name ∈ lockFiles, p ("**/" ++ name)) ∧
      ∀ text ∈ generatedEndings, p ("**/*" ++ text) := by
  rw [alwaysExcluded_eq]
  simp only [List.forall_mem_append, List.forall_mem_map, and_assoc]

theorem alwaysExcluded_valid : ∀ text ∈ alwaysExcluded, (Glob.parse? text).isSome := by
  refine forall_mem_alwaysExcluded.mpr ⟨fun name hname => ?_, fun name hname => ?_, fun text htext => ?_⟩
  · rw [parse?_directory hname, Option.isSome_some]
  · rw [parse?_lockFile hname, Option.isSome_some]
  · rw [parse?_generated htext, Option.isSome_some]

section Shapes

variable {path : Chars}

/-- A glob for what is below a directory excludes the paths with the name of the directory among their components. -/
theorem excludes_below_iff {name : String} (hplain : name.toList.all Glob.isPlain = true) (hslash : '/' ∉ name.toList) :
    Excludes ("**/" ++ name ++ "/**") path ↔ name.toList ∈ (components path).dropLast := by
  rw [excludes_iff (Glob.parse?_below hplain), Glob.below_matches_iff, mem_dropLast_components_iff hslash]

theorem excludes_directory_iff {name : String} (hname : name ∈ deniedDirectories) :
    Excludes ("**/" ++ name ++ "/**") path ↔ name.toList ∈ (components path).dropLast :=
  excludes_below_iff (deniedDirectories_plain name hname).1 (deniedDirectories_plain name hname).2

theorem suffix_of_excludes_lockFile {name : String} (hname : name ∈ lockFiles) (h : Excludes ("**/" ++ name) path) :
    name.toList <:+ path := by
  have hmatches := (excludes_iff (parse?_lockFile hname)).mp h
  obtain ⟨front, rfl, -⟩ := (Glob.named_matches_iff (lockFiles_plain name hname).1).mp hmatches
  exact List.suffix_append front name.toList

theorem excludes_generated_iff {text : String} (htext : text ∈ generatedEndings) :
    Excludes ("**/*" ++ text) path ↔ text.toList <:+ path := by
  obtain ⟨rest, hrest⟩ := List.head?_eq_some_iff.mp (generatedEndings_plain text htext).1
  rw [excludes_iff (parse?_generated htext), hrest, Glob.ending_matches_iff]

/-- Extensions of lock files, style sheets and source maps. -/
def otherExtensions : List String := ["json", "lock", "yaml", "css", "map"]

theorem otherExtensions_plain : ∀ text ∈ otherExtensions, '.' ∉ text.toList ∧ '/' ∉ text.toList ∧
    String.ofList (asciiLower text.toList) ∉ sourceExtensions := by
  decide +kernel

/-- Such a path is not one of a source file. -/
theorem not_suffix_of_extension (h : String.ofList (extension path) ∈ sourceExtensions) :
    ∀ text ∈ otherExtensions, ¬ '.' :: text.toList <:+ path := by
  intro text htext hsuffix
  obtain ⟨hdot, hslash, hother⟩ := otherExtensions_plain text htext
  rcases extension_of_suffix hdot hslash hsuffix with heq | heq
  · rw [heq] at h
    exact hother h
  · rw [heq] at h
    exact absurd h (by decide +kernel)

/-- Lock files, and the generated files that are no scripts, have one of the other extensions. -/
theorem lockFiles_suffix : ∀ name ∈ lockFiles, ∃ text ∈ otherExtensions, '.' :: text.toList <:+ name.toList := by
  decide +kernel

theorem generatedEndings_suffix : ∀ text ∈ generatedEndings, text = ".min.js" ∨ text = ".bundle.js" ∨
    ∃ other ∈ otherExtensions, '.' :: other.toList <:+ text.toList := by
  decide +kernel

theorem not_excludes_iff_indexed : ((∀ text ∈ alwaysExcluded, ¬Excludes text path) ∧
    String.ofList (extension path) ∈ sourceExtensions) ↔ Indexed path := by
  rw [forall_mem_alwaysExcluded]
  constructor
  · rintro ⟨⟨hdirectories, -, hgenerated⟩, hextension⟩
    refine ⟨fun name hname => ?_, ?_, ?_, hextension⟩
    · exact mt (excludes_directory_iff hname).mpr (hdirectories name hname)
    · have hmem : ".min.js" ∈ generatedEndings := by decide +kernel
      exact mt (excludes_generated_iff hmem).mpr (hgenerated ".min.js" hmem)
    · have hmem : ".bundle.js" ∈ generatedEndings := by decide +kernel
      exact mt (excludes_generated_iff hmem).mpr (hgenerated ".bundle.js" hmem)
  · intro h
    have hother := not_suffix_of_extension h.extension
    refine ⟨⟨fun name hname => ?_, fun name hname hexcludes => ?_, fun text htext => ?_⟩, h.extension⟩
    · exact mt (excludes_directory_iff hname).mp (h.directories name hname)
    · obtain ⟨text, htext, hsuffix⟩ := lockFiles_suffix name hname
      exact hother text htext (hsuffix.trans (suffix_of_excludes_lockFile hname hexcludes))
    · refine mt (excludes_generated_iff htext).mp ?_
      rcases generatedEndings_suffix text htext with rfl | rfl | ⟨other, hmem, hsuffix⟩
      · exact h.minified
      · exact h.bundle
      · exact fun hpath => hother other hmem (hsuffix.trans hpath)

end Shapes

theorem ofGlobs_eq {extra : List String} (hvalid : ∀ text ∈ extra, (Glob.parse? text).isSome) (maxBytes : Nat) :
    ofGlobs extra maxBytes = .ok ⟨read (alwaysExcluded ++ extra), maxBytes⟩ := by
  rw [ofGlobs, globsOf_eq alwaysExcluded_valid, globsOf_eq hvalid, read_append]
  rfl

/-- Without further globs a path is accepted if it is one of a source file, below no denied directory and not
generated; with further globs, if it is accepted without them and none of them matches it. -/
theorem accepts_iff {extra : List String} (hvalid : ∀ text ∈ extra, (Glob.parse? text).isSome) (maxBytes : Nat) :
    ∃ plain filter, ofGlobs [] maxBytes = .ok plain ∧ ofGlobs extra maxBytes = .ok filter ∧
      (∀ path, plain.accepts path = true ↔ Indexed path) ∧
      ∀ path, filter.accepts path = true ↔ plain.accepts path = true ∧ ∀ text ∈ extra, ¬Excludes text path := by
  have hplain : ofGlobs [] maxBytes = .ok ⟨read alwaysExcluded, maxBytes⟩ := by
    rw [ofGlobs_eq (List.forall_mem_nil _), List.append_nil]
  have hall : ∀ text ∈ alwaysExcluded ++ extra, (Glob.parse? text).isSome :=
    List.forall_mem_append.mpr ⟨alwaysExcluded_valid, hvalid⟩
  refine ⟨_, _, hplain, ofGlobs_eq hvalid maxBytes, fun path => ?_, fun path => ?_⟩
  · rw [accepts_read_iff alwaysExcluded_valid, not_excludes_iff_indexed]
  · rw [accepts_read_iff hall, accepts_read_iff alwaysExcluded_valid, List.forall_mem_append]
    exact and_right_comm

/-- With a glob for test data a source file is accepted and one among the test data is not, which is accepted without
that glob. A directory is denied by its whole name only. -/
theorem accepts_iff_fixtures : (∀ text ∈ ["**/fixtures/**"], (Glob.parse? text).isSome) ∧
    ∃ plain filter, ofGlobs [] 1024 = .ok plain ∧ ofGlobs ["**/fixtures/**"] 1024 = .ok filter ∧
      filter.accepts "src/lib.rs".toList = true ∧
      plain.accepts "tests/fixtures/lib.rs".toList = true ∧ filter.accepts "tests/fixtures/lib.rs".toList = false ∧
      filter.accepts "web/node_modules/index.js".toList = false ∧
      filter.accepts "web/my_node_modules/index.js".toList = true ∧
      filter.accepts "web/app.min.js".toList = false := by
  have hvalid : ∀ text ∈ ["**/fixtures/**"], (Glob.parse? text).isSome := by decide +kernel
  obtain ⟨plain, filter, hplain, hfilter, hindexed, hextra⟩ := accepts_iff hvalid 1024
  have hexcludes : ∀ path, Excludes "**/fixtures/**" path ↔ "fixtures".toList ∈ (components path).dropLast := by
    intro path
    have hname : "**/fixtures/**" = "**/" ++ "fixtures" ++ "/**" := by decide +kernel
    rw [hname]
    exact excludes_below_iff (by decide +kernel) (by decide +kernel)
  have haccepts : ∀ path, filter.accepts path = true ↔
      Indexed path ∧ "fixtures".toList ∉ (components path).dropLast := by
    intro path
    rw [hextra, hindexed, List.forall_mem_singleton, hexcludes]
  refine ⟨hvalid, plain, filter, hplain, hfilter, ?_, ?_, ?_, ?_, ?_, ?_⟩
  · exact (haccepts _).mpr (by decide +kernel)
  · exact (hindexed _).mpr (by decide +kernel)
  · exact Bool.eq_false_iff.mpr (mt (haccepts _).mp (by decide +kernel))
  · exact Bool.eq_false_iff.mpr (mt (haccepts _).mp (by decide +kernel))
  · exact (haccepts _).mpr (by decide +kernel)
  · exact Bool.eq_false_iff.mpr (mt (haccepts _).mp (by decide +kernel))

end SourceIndex.Archive.PathFilter
