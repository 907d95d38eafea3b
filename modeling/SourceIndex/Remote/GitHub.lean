import SourceIndex.Config
import SourceIndex.Json.Decode
import SourceIndex.Remote.Reason
import SourceIndex.Remote.Transport
import SourceIndex.RepoName

/-!
The client for the host of repositories: the default branch of a repository, and the archive of a
branch, which is read piece by piece and given up once it is larger than allowed.
-/

namespace SourceIndex.Remote.GitHub
open Text

structure Client where
  apiBase : String
  userAgent : String
  maxTarballBytes : Nat
  deriving DecidableEq, Repr

/-- The client that a configuration asks for; none if the program stops at its limit. -/
def Client.ofConfig (overflow : Overflow) (config : HostConfig) : Except Failure (Option Client) :=
  if isHeaderValue config.userAgent then
    .ok ((config.maxTarballBytes overflow).map fun limit =>
      ⟨withoutSlashes config.apiBase, config.userAgent, limit⟩)
  else .error (Failure.outside.during "Failed to build GitHub HTTP client")

variable {σ : Type} (client : Client) (transport : Transport σ)

def request (path token : String) : Request :=
  { method := "GET"
    url := client.apiBase ++ path
    bearer := token
    headers :=
      [("accept", "application/vnd.github+json"), ("user-agent", client.userAgent),
        ("x-github-api-version", "2022-11-28")]
    body := none
    delay := 0 }

/-- What an answer says that reports a failure. -/
def refusal (path : String) (reply : Reply) : Failure :=
  let body := trim ((reply.text?).getD [])
  .stated ("GitHub API error " ++ statusText reply.status ++ " for " ++ path ++ ": " ++
    String.ofList body)

/-- The answer to a request that succeeded. -/
def get (path token : String) : Action σ Reply := ExceptT.mk do
  match ← transport.send (request client path token) with
  | .error _ => pure (.error (Failure.outside.during ("GitHub request failed: GET " ++ path)))
  | .ok reply => pure (if reply.isSuccess then .ok reply else .error (refusal path reply))

section
open Json.Decoder

/-- What is used of the description of a repository. -/
def branchDecoder : Json.Decoder String := fun depth node => do
  (← record [field "default_branch" string .never] depth node).get "default_branch" string

end

def repoPath (repo : RepoName) : String := "/repos/" ++ repo.owner ++ "/" ++ repo.name

def branchOf (reply : Reply) : Option String := do
  (branchDecoder.bytes (← reply.body?)).toOption

def defaultBranch (repo : RepoName) (token : String) : Action σ String := do
  let reply ← get client transport (repoPath repo) token
  match branchOf reply with
  | some branch => pure branch
  | none =>
    throw (Failure.outside.during ("Invalid repository metadata for " ++ repo.fullName))

/-- Add pieces to those in reverse that were read, as long as they are not too large together. -/
def readPieces (repo : RepoName) (limit : Nat) (complete : Bool) :
    List (List UInt8) → Nat → List (List UInt8) → Except Failure (List UInt8)
  | [], _, done =>
    if complete then .ok done.reverse.flatten
    else
      .error (Failure.outside.during ("Tarball download of " ++ repo.fullName ++ " interrupted"))
  | piece :: rest, size, done =>
    if limit < size + piece.length then
      .error (.stated
        ("Tarball of " ++ repo.fullName ++ " exceeds " ++ toString limit ++ " bytes"))
    else readPieces repo limit complete rest (size + piece.length) (piece :: done)

/-- The archive of a branch. -/
def download (repo : RepoName) (branch token : String) : Action σ (List UInt8) := do
  let reply ← get client transport (repoPath repo ++ "/tarball/" ++ branch) token
  liftExcept (readPieces repo client.maxTarballBytes reply.complete reply.pieces 0 [])

end SourceIndex.Remote.GitHub
