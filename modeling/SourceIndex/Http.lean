import SourceIndex.Http.Form
import SourceIndex.Http.MediaType
import SourceIndex.Service.Lifecycle

/-!
The interface of the service for other programs: requests to its addresses and their answers in JSON.
The user of a request stands in a header that a proxy before the service has set.
-/

namespace SourceIndex.Http
open Text

structure Request where
  method : String
  /-- The path, and maybe a question mark and a query. -/
  target : String
  headers : List (String × String)
  body : List UInt8
  deriving DecidableEq, Repr

/-- The content of an answer. -/
inductive Content where
  | health
  | record (job : Job)
  | records (jobs : List Job)
  | deleted (chunks : Nat)
  | hits (hits : List VectorIndex.Hit)
  | error (code message : String)

structure Response where
  status : Nat
  content : Option Content

namespace Response

def ok (content : Content) : Response := ⟨200, some content⟩

/-- A refusal without an explanation. -/
def bare (status : Nat) : Response := ⟨status, none⟩

def badRequest (message : String) : Response := ⟨400, some (.error "bad_request" message)⟩

def unauthorized (message : String) : Response := ⟨401, some (.error "unauthorized" message)⟩

def notFound (message : String) : Response := ⟨404, some (.error "not_found" message)⟩

def conflict (message : String) : Response := ⟨409, some (.error "conflict" message)⟩

def internal (failure : Failure) : Response := ⟨500, some (.error "internal" failure.text)⟩

end Response

/-- The version that the service says it has. -/
def version : String := "0.1.0"

/-- The origins that may read the answers. -/
def allowedOrigin : String := "*"

def hitJson (hit : VectorIndex.Hit) : Json :=
  .object
    [("id", .string hit.id), ("score", hit.score.toJson), ("metadata", hit.metadata.toJson)]

def Content.toJson : Content → Json
  | .health => .object [("status", .string "ok"), ("version", .string version)]
  | .record job => job.toJson
  | .records jobs => .object [("repositories", .array (jobs.map Job.toJson))]
  | .deleted chunks => .object [("deleted", .bool true), ("chunks", .nat chunks)]
  | .hits found => .object [("results", .array (found.map hitJson))]
  | .error code message =>
    .object [("error", .object [("code", .string code), ("message", .string message)])]

/-! ### Reading requests -/

namespace Request

def path (request : Request) : Chars :=
  request.target.toList.takeWhile fun c => c ≠ '?' && c ≠ '#'

def query (request : Request) : Chars :=
  ((request.target.toList.takeWhile (· ≠ '#')).dropWhile (· ≠ '?')).drop 1

/-- The value of a header, if it is printable; names are the same in any case. -/
def header? (request : Request) (name : String) : Option Chars := do
  let (_, value) ← request.headers.find? fun (n, _) => asciiLower n.toList = name.toList
  if value.toList.all fun c => c = '\t' || (32 ≤ c.toNat && c.toNat < 127) then some value.toList
  else none

def userHeader : String := "x-user-id"

end Request

/-- What answers a request: it may change the world, and it may end early with a response. -/
abbrev Handler (J R V α : Type) := Step Response (World J R V) α

variable {J R V : Type}

/-- A step of the service; its failures are internal ones. -/
def handled {α : Type} (step : Action (World J R V) α) : Handler J R V α :=
  step.mapError Response.internal

/-- The user of a request. -/
def userOf (request : Request) : Handler J R V String :=
  match (request.header? Request.userHeader).map trim with
  | some (c :: rest) => pure (String.ofList (c :: rest))
  | _ => throw (.unauthorized ("missing " ++ Request.userHeader ++ " header"))

/-- The value that a query gives to a name at most once. -/
def valueOf (name : String) (request : Request) : Handler J R V (Option String) :=
  match valuesOf name (formPairs request.query) with
  | [] => pure none
  | [value] => pure (some value)
  | _ => throw (.bare 400)

/-- A number in a query. -/
def numberOf (name : String) (request : Request) : Handler J R V (Option Nat) := do
  match ← valueOf name request with
  | none => pure none
  | some value =>
    match parseNat? maxWord64 value.toList with
    | some n => pure (some n)
    | none => throw (.bare 400)

/-- A name that is one of a repository. -/
def soundRepo (repo : String) : Handler J R V String :=
  if (RepoName.ofFullName? repo).isSome then pure repo
  else throw (.badRequest ("invalid repository '" ++ repo ++ "', expected owner/repo"))

/-- The repository that a query must name. -/
def requiredRepo (repo : Option String) : Handler J R V String :=
  match repo with
  | some repo => soundRepo repo
  | none => throw (.badRequest "repo must be provided")

/-- How many bytes a body has at most. -/
def maxBody : Nat := 2097152

section
open Json.Decoder

/-- The body of a request to index a repository. -/
def startDecoder : Json.Decoder String := fun depth node => do
  (← record [field "repoFullName" string .never] depth node).get "repoFullName" string

end

/-- The repository that a body names. -/
def bodyRepo (request : Request) : Handler J R V String := do
  let media := (request.header? "content-type").bind MediaType.parse?
  if !media.any MediaType.isJson then throw (.bare 415)
  if maxBody < request.body.length then throw (.bare 413)
  match startDecoder.bytes request.body with
  | .ok repo => pure repo
  | .error .grammar => throw (.bare 400)
  | .error .shape => throw (.bare 422)

/-! ### Answering -/

def defaultTopK : Nat := 10

def maxTopK : Nat := 100

variable (service : Service J R V)

def getIndex (request : Request) : Handler J R V Response := do
  let user ← userOf request
  match ← valueOf "repo" request with
  | some repo =>
    let repo ← soundRepo repo
    match ← handled (service.job? ⟨user, repo⟩) with
    | some job => pure (.ok (.record job))
    | none => throw (.notFound (repo ++ " has not been indexed"))
  | none => do
    let jobs ← handled (service.jobsOf user)
    pure (.ok (.records jobs))

def startIndex (request : Request) : Handler J R V Response := do
  let user ← userOf request
  let repo ← bodyRepo request
  let repo ← soundRepo repo
  match ← handled (service.start ⟨user, repo⟩) with
  | some job => pure ⟨202, some (.record job)⟩
  | none => throw (.conflict (repo ++ " is already being indexed"))

def deleteIndex (request : Request) : Handler J R V Response := do
  let user ← userOf request
  let repo ← valueOf "repo" request
  let repo ← requiredRepo repo
  match ← handled (service.delete ⟨user, repo⟩) with
  | .deleted chunks => pure (.ok (.deleted chunks))
  | .notFound => throw (.notFound (repo ++ " has not been indexed"))
  | .active => throw (.conflict (repo ++ " is being indexed"))

def getSearch (request : Request) : Handler J R V Response := do
  let user ← userOf request
  let repo ← valueOf "repo" request
  let text ← valueOf "q" request
  let topK ← numberOf "topK" request
  let repo ← requiredRepo repo
  let text := String.ofList (trim (text.getD "").toList)
  if text.isEmpty then throw (.badRequest "q must not be empty")
  let topK := min (max (topK.getD defaultTopK) 1) maxTopK
  let hits ← handled (service.search text ⟨user, repo⟩ topK)
  pure (.ok (.hits hits))

/-- The handler for a method and a path; other methods of a known path are refused. -/
def route (request : Request) : Handler J R V Response :=
  let path := String.ofList request.path
  let method := if request.method = "HEAD" then "GET" else request.method
  if path = "/api/index" then
    if method = "GET" then getIndex service request
    else if method = "POST" then startIndex service request
    else if method = "DELETE" then deleteIndex service request
    else throw (.bare 405)
  else if path = "/api/search" then
    if method = "GET" then getSearch service request else throw (.bare 405)
  else if path = "/health" then
    if method = "GET" then pure (.ok .health) else throw (.bare 405)
  else throw (.bare 404)

/-- Answer a request. Browsers may ask for leave on every path; a request for headers only gets no
content. -/
def answer (request : Request) : StateM (World J R V) Response := do
  if request.method = "OPTIONS" then pure (.bare 200)
  else
    let response ← match ← (route service request).run with
      | .ok response => pure response
      | .error response => pure response
    pure (if request.method = "HEAD" then { response with content := none } else response)

end SourceIndex.Http
