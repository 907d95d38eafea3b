import SourceIndex.Json.Decode
import SourceIndex.Time.Rfc3339

/-!
Job records: what is known about indexing one repository for one user. A record is changed by partial
updates and is reset when a run starts.
-/

namespace SourceIndex

namespace Job

inductive Status where
  | pending
  | cloning
  | parsing
  | indexing
  | completed
  | failed
  deriving DecidableEq, Repr

namespace Status

def name : Status → String
  | .pending => "PENDING"
  | .cloning => "CLONING"
  | .parsing => "PARSING"
  | .indexing => "INDEXING"
  | .completed => "COMPLETED"
  | .failed => "FAILED"

def all : List Status := [.pending, .cloning, .parsing, .indexing, .completed, .failed]

def ofName? (s : String) : Option Status := all.find? (·.name == s)

/-- What is said about a text that names no status. -/
def unknownMessage (s : String) : String := "unknown index status '" ++ s ++ "'"

/-- The run is over. -/
def isTerminal : Status → Bool
  | .completed | .failed => true
  | _ => false

/-- A run is waiting or going on. -/
def isActive (status : Status) : Bool := !status.isTerminal

end Status

/-- Whose job it is: there is one for each user and repository. -/
structure Key where
  user : String
  repo : String
  deriving DecidableEq, Repr

/-- Keys are ordered by user, then by repository. -/
def Key.lt (a b : Key) : Bool := a.user < b.user || (a.user == b.user && a.repo < b.repo)

/-- A partial update; what is absent stays as it is. -/
structure Update where
  status : Option Status
  progress : Option Nat
  branch : Option String
  url : Option String
  totalFiles : Option Nat
  indexedFiles : Option Nat
  error : Option String
  lastIndexed : Option Time
  deriving DecidableEq, Repr

namespace Update

def none : Update := ⟨.none, .none, .none, .none, .none, .none, .none, .none⟩

/-- The update that ends a run with a message. -/
def failed (message : String) : Update :=
  { Update.none with status := some .failed, error := some message }

end Update
end Job

structure Job where
  key : Job.Key
  url : String
  branch : String
  status : Job.Status
  /-- In percent. -/
  progress : Nat
  totalFiles : Nat
  indexedFiles : Nat
  error : Option String
  lastIndexed : Option Time
  /-- The second of the last write. -/
  updatedAt : Int
  deriving DecidableEq, Repr

namespace Job

/-- A new record that waits for its run. -/
def fresh (key : Key) (url : String) (now : Int) : Job :=
  ⟨key, url, "", .pending, 0, 0, 0, none, none, now⟩

def apply (job : Job) (update : Update) (now : Int) : Job :=
  { job with
    status := update.status.getD job.status
    progress := update.progress.getD job.progress
    branch := update.branch.getD job.branch
    url := update.url.getD job.url
    totalFiles := update.totalFiles.getD job.totalFiles
    indexedFiles := update.indexedFiles.getD job.indexedFiles
    error := update.error <|> job.error
    lastIndexed := update.lastIndexed <|> job.lastIndexed
    updatedAt := now }

/-- Back to the start of a run; the branch and the time of the last success stay. -/
def reset (job : Job) (status : Status) (url : String) (now : Int) : Job :=
  { job with
    status
    url
    progress := 0
    totalFiles := 0
    indexedFiles := 0
    error := none
    updatedAt := now }

/-- An active run whose last write is not too old holds its key. -/
def holdsKey (job : Job) (staleBefore : Int) : Bool :=
  job.status.isActive && staleBefore ≤ job.updatedAt

def timeJson : Option Time → Json := Json.ofOption fun time => .string time.toText

/-- The time of the last write is not part of the JSON form. -/
def toJson (job : Job) : Json :=
  .object
    [("userId", .string job.key.user),
      ("repoFullName", .string job.key.repo),
      ("repoUrl", .string job.url),
      ("branch", .string job.branch),
      ("status", .string job.status.name),
      ("progress", .nat job.progress),
      ("totalFiles", .nat job.totalFiles),
      ("indexedFiles", .nat job.indexedFiles),
      ("errorMessage", Json.ofOption .string job.error),
      ("lastIndexedAt", timeJson job.lastIndexed)]

section
open Json.Decoder

def time : Json.Decoder Time := fun depth node => do
  match Time.ofText? (← string depth node) with
  | some time => .ok time
  | none => .error .shape

def statusDecoder : Json.Decoder Status := named Status.ofName?

def fields : List Field :=
  [field "userId" string .never, field "repoFullName" string .never, field "repoUrl" string .never,
    field "branch" string .never, field "status" statusDecoder .never,
    field "progress" (natUpTo 255) .never, field "totalFiles" word64 .never,
    field "indexedFiles" word64 .never, field "errorMessage" (nullable string) .fromObject,
    field "lastIndexedAt" (nullable time) .fromObject]

def decoder : Json.Decoder Job := fun depth node => do
  let found ← record fields depth node
  .ok
    { key := ⟨← found.get "userId" string, ← found.get "repoFullName" string⟩
      url := ← found.get "repoUrl" string
      branch := ← found.get "branch" string
      status := ← found.get "status" statusDecoder
      progress := ← found.get "progress" (natUpTo 255)
      totalFiles := ← found.get "totalFiles" word64
      indexedFiles := ← found.get "indexedFiles" word64
      error := ← found.getD "errorMessage" (nullable string) none
      lastIndexed := ← found.getD "lastIndexedAt" (nullable time) none
      updatedAt := 0 }

end

end Job
end SourceIndex
