import SourceIndex.Service.Lifecycle

/-!
The commands of the service as texts for a terminal: a table of records, what was deleted, and the
hits of a search.
-/

namespace SourceIndex.Service
open Text

namespace Commands

/-! ### Tables -/

/-- The date and the minute of a point in time. -/
def minuteText (time : Time) : Chars :=
  let date := time.date
  let second := time.secondOfDay
  Time.yearText date.year ++ '-' :: Time.digits 2 date.month ++ '-' :: Time.digits 2 date.day ++
    ' ' :: Time.digits 2 (second / 3600) ++ ':' :: Time.digits 2 (second / 60 % 60)

/-- A row of the table of records. -/
def row (repo status percent files branch last : Chars) : Chars :=
  padRight 40 repo ++ ' ' :: padRight 10 status ++ ' ' :: padLeft 5 percent ++
    ' ' :: padLeft 13 files ++ ' ' :: padRight 10 branch ++ ' ' :: last ++ ['\n']

def heading : Chars :=
  row "REPOSITORY".toList "STATUS".toList "PROG".toList "FILES".toList "BRANCH".toList
    "LAST INDEXED".toList

def jobRow (job : Job) : Chars :=
  row job.key.repo.toList job.status.name.toList (natText job.progress ++ ['%'])
    (natText job.indexedFiles ++ '/' :: natText job.totalFiles)
    (if job.branch.isEmpty then ['-'] else job.branch.toList)
    (job.lastIndexed.elim ['-'] minuteText)

/-- The message of a record that has one. -/
def errorLine (job : Job) : Chars :=
  match job.error with
  | some message => '\n' :: job.key.repo.toList ++ ": ".toList ++ message.toList ++ ['\n']
  | none => []

def table (jobs : List Job) : String :=
  if jobs.isEmpty then "No indexed repositories.\n"
  else String.ofList (heading ++ jobs.flatMap jobRow ++ jobs.flatMap errorLine)

/-! ### Hits -/

/-- The words of a text with single blanks between them, cut to a number of characters. -/
def excerpt (count : Nat) (text : String) : Chars :=
  let flat := [' '].intercalate (words text.toList)
  if flat.length ≤ count then flat else flat.take count ++ "...".toList

/-- The lines for a hit, which has a number. -/
def hitText (number : Nat) (hit : VectorIndex.Hit) : String :=
  let m := hit.metadata
  let doc :=
    m.doc.elim "" fun doc => "    doc: \"" ++ String.ofList (excerpt 160 doc) ++ "\"\n"
  toString number ++ ". [" ++ hit.score.text 2 ++ "] " ++ m.kind.name ++ " " ++ m.name ++ " (" ++
    m.path ++ ":" ++ toString m.startLine ++ "-" ++ toString m.endLine ++ ")\n" ++
    "    url: " ++ m.url ++ "\n" ++ doc ++
    "    excerpt: \"" ++ String.ofList (excerpt 240 m.content) ++ "\"\n" ++
    "    id: " ++ hit.id ++ "\n\n"

def hitsText (hits : List VectorIndex.Hit) : String :=
  if hits.isEmpty then "No results.\n"
  else "".intercalate (hits.zipIdx.map fun (hit, i) => hitText (i + 1) hit)

end Commands

/-- What is said about a repository without a record. -/
def notIndexed (key : Job.Key) : Failure :=
  .stated (key.repo ++ " has not been indexed for user " ++ key.user)

variable {J R V : Type} (service : Service J R V)

/-- Show the records of a user, or the one of a repository. -/
def showStatus (user : String) (repo : Option String) : Action (World J R V) String := do
  match repo with
  | none => Commands.table <$> service.jobsOf user
  | some repo =>
    match ← service.job? ⟨user, repo⟩ with
    | some job => pure (Commands.table [job])
    | none => throw (notIndexed ⟨user, repo⟩)

/-- Delete a repository and say what was deleted. -/
def showDeletion (key : Job.Key) : Action (World J R V) String := do
  match ← service.delete key with
  | .deleted chunks => pure ("Deleted " ++ key.repo ++ " (" ++ toString chunks ++ " chunks).\n")
  | .notFound => throw (notIndexed key)
  | .active => throw (.stated (key.repo ++ " is being indexed; try again when the run ends"))

/-- Search a repository and show the hits. -/
def showSearch (query : String) (key : Job.Key) (topK : Nat) : Action (World J R V) String := do
  if isBlankText query.toList then throw (.stated "query must not be empty")
  Commands.hitsText <$> service.search query key topK

/-- Index a repository at once and say what was done. -/
def showRun (key : Job.Key) : Action (World J R V) String := do
  let summary ← service.runNow key
  pure ("Indexed " ++ key.repo ++ "@" ++ summary.branch ++ ": " ++ toString summary.files ++
    " files, " ++ toString summary.chunks ++ " chunks (" ++ toString summary.failedFiles ++
    " files skipped, " ++ toString summary.deletedChunks ++ " stale chunks removed).\n")

end SourceIndex.Service
