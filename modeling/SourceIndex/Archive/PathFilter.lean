import SourceIndex.Archive.Glob
import SourceIndex.Failure
import SourceIndex.Path

/-!
Which files of an archive are indexed: those with an extension of a source file that no glob excludes
and that are not too large. Dependencies, build output, version control data, caches, lock files and
generated bundles are always excluded.
-/

namespace SourceIndex.Archive
open Text

structure PathFilter where
  excluded : List Glob
  /-- The size of a file in bytes that is still indexed. -/
  maxBytes : Nat

namespace PathFilter

def alwaysExcluded : List String :=
  ["**/node_modules/**", "**/vendor/**", "**/bower_components/**", "**/.venv/**", "**/venv/**",
    "**/__pycache__/**", "**/dist/**", "**/build/**", "**/out/**", "**/.next/**", "**/.nuxt/**",
    "**/target/**", "**/coverage/**", "**/.git/**", "**/.svn/**", "**/.hg/**", "**/.cache/**",
    "**/.pytest_cache/**", "**/.mypy_cache/**", "**/.turbo/**", "**/package-lock.json",
    "**/yarn.lock", "**/pnpm-lock.yaml", "**/Cargo.lock", "**/poetry.lock", "**/composer.lock",
    "**/Gemfile.lock", "**/*.min.js", "**/*.min.css", "**/*.map", "**/*.bundle.js"]

def sourceExtensions : List String :=
  ["js", "jsx", "ts", "tsx", "mjs", "cjs", "py", "ipynb", "java", "kt", "kts", "scala", "go", "rs",
    "rb", "php", "c", "h", "cc", "cpp", "hpp", "cs", "swift", "m", "vue", "svelte", "dart", "lua",
    "sh", "sql", "ex", "exs"]

/-- The patterns of a list of texts, or what fails for the first that is none. -/
def globsOf (texts : List String) : Except Failure (List Glob) :=
  texts.mapM fun text =>
    match Glob.parse? text with
    | some glob => .ok glob
    | none => .error (Failure.outside.during ("Invalid exclude glob: '" ++ text ++ "'"))

/-- The filter with some more excluded globs. -/
def ofGlobs (extra : List String) (maxBytes : Nat) : Except Failure PathFilter := do
  pure ⟨(← globsOf alwaysExcluded) ++ (← globsOf extra), maxBytes⟩

def excludes (filter : PathFilter) (path : Chars) : Bool :=
  filter.excluded.any (·.holds (encode path))

/-- A path that is indexed. -/
def accepts (filter : PathFilter) (path : Chars) : Bool :=
  !filter.excludes path && sourceExtensions.contains (String.ofList (Path.extension path))

end PathFilter
end SourceIndex.Archive
