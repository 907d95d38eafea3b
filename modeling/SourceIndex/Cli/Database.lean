import SourceIndex.Credentials
import SourceIndex.Job.Table
import SourceIndex.Json.Compact
import SourceIndex.Json.Decode

/-!
What is kept between two commands, the job records and the tokens, and its text in a file. A database
whose path says so lives in memory only and starts empty each time.
-/

namespace SourceIndex.Cli

structure Database where
  jobs : Job.Table
  credentials : Credentials
  deriving DecidableEq, Repr

namespace Database

def empty : Database := ⟨.empty, .empty⟩

/-- A database at this path is kept in a file. -/
def isKept (path : String) : Bool := path != ":memory:"

/-! ### Writing -/

def integerJson (n : Int) : Json := .number (.integer n)

def rowJson (row : Job.Row) : Json :=
  .object
    [("user", .string row.key.user), ("repo", .string row.key.repo), ("url", .string row.url),
      ("branch", .string row.branch), ("status", .string row.status),
      ("progress", integerJson row.progress), ("totalFiles", integerJson row.totalFiles),
      ("indexedFiles", integerJson row.indexedFiles), ("error", Json.ofOption .string row.error),
      ("lastIndexed", Json.ofOption integerJson row.lastIndexed),
      ("updatedAt", integerJson row.updatedAt)]

def tokenJson (entry : String × String) : Json :=
  .object [("user", .string entry.1), ("token", .string entry.2)]

def toJson (database : Database) : Json :=
  .object
    [("jobs", .array (database.jobs.rows.map rowJson)),
      ("tokens", .array (database.credentials.tokens.map tokenJson))]

/-- The content of the file that keeps a database. -/
def toText (database : Database) : String := database.toJson.toText ++ "\n"

/-! ### Reading -/

section
open Json.Decoder

def integer : Json.Decoder Int := fun _ node =>
  match node with
  | .number (.integer n) => .ok n
  | node => .error (mismatch node)

def rowDecoder : Json.Decoder Job.Row := fun depth node => do
  let found ← record
    [field "user" string .never, field "repo" string .never, field "url" string .never,
      field "branch" string .never, field "status" string .never, field "progress" integer .never,
      field "totalFiles" integer .never, field "indexedFiles" integer .never,
      field "error" (nullable string) .never, field "lastIndexed" (nullable integer) .never,
      field "updatedAt" integer .never] depth node
  pure
    { key := ⟨← found.get "user" string, ← found.get "repo" string⟩
      url := ← found.get "url" string
      branch := ← found.get "branch" string
      status := ← found.get "status" string
      progress := ← found.get "progress" integer
      totalFiles := ← found.get "totalFiles" integer
      indexedFiles := ← found.get "indexedFiles" integer
      error := ← found.get "error" (nullable string)
      lastIndexed := ← found.get "lastIndexed" (nullable integer)
      updatedAt := ← found.get "updatedAt" integer }

def tokenDecoder : Json.Decoder (String × String) := fun depth node => do
  let found ← record [field "user" string .never, field "token" string .never] depth node
  pure (← found.get "user" string, ← found.get "token" string)

def decoder : Json.Decoder Database := fun depth node => do
  let found ← record
    [field "jobs" (list rowDecoder) .never, field "tokens" (list tokenDecoder) .never] depth node
  let rows ← found.get "jobs" (list rowDecoder)
  let tokens ← found.get "tokens" (list tokenDecoder)
  pure ⟨rows.foldl (fun table row => table.put row) .empty, ⟨tokens, false⟩⟩

end

/-- The database that a file keeps; an empty file keeps an empty one. -/
def ofText? (text : String) : Option Database :=
  if text.isEmpty then some empty else (decoder.text text.toList).toOption

/-- What opening a database at a path fails with. -/
def unreadable (path : String) : Failure :=
  Failure.outside.during ("Failed to open database " ++ path)

/-- The directory in which a database at a path lies; absent if it is the current one. -/
def directory? (path : String) : Option String :=
  match (path.toList.reverse.dropWhile (· ≠ '/')).dropWhile (· = '/') with
  | [] => none
  | parent => some (String.ofList parent.reverse)

/-- What making the directory of a database fails with. -/
def homeless (directory : String) : Failure :=
  Failure.outside.during ("Failed to create " ++ directory)

end Database
end SourceIndex.Cli
