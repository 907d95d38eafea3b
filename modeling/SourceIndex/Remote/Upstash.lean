import SourceIndex.Config
import SourceIndex.Json.Decode
import SourceIndex.Remote.Transport
import SourceIndex.Text.Lowercase
import SourceIndex.VectorIndex

/-!
The client for a hosted vector index. Answers hold a result or an error; requests that did not come
through, were too many or failed on the side of the index are repeated, with growing delays, and others
are not. An index that says it is empty is told apart from other errors.
-/

namespace SourceIndex.Remote.Upstash
open Text VectorIndex

structure Client where
  baseUrl : String
  token : String
  /-- How often a request is repeated at most. -/
  maxRetries : Nat
  deriving DecidableEq, Repr

/-- The client that a configuration asks for. -/
def Client.ofConfig (config : VectorConfig) : Except Failure Client := do
  match config.url, config.token with
  | none, _ => .error (.stated "vector.url required")
  | some _, none => .error (.stated "vector.token required")
  | some url, some token => .ok ⟨withoutSlashes url, token, config.maxRetries⟩

/-! ### Answers -/

/-- The message says that the index is empty. -/
def saysEmpty (message : Chars) : Bool :=
  let s := lowercase message
  containsText "empty".toList s &&
    (containsText "index".toList s || containsText "namespace".toList s)

/-- The error that a message stands for. -/
def errorOf (status : Nat) (message : String) : Error :=
  if saysEmpty message.toList then .emptyIndex else .api status message

section
open Json.Decoder

def errorDecoder : Json.Decoder (Option String) := nullable string

/-- The result and the error of an answer, either of which may be missing. -/
def envelope {α : Type} (result : Json.Decoder α) :
    Json.Decoder (Option α × Option String) := fun depth node => do
  let found ← record
    [field "result" (nullable result) .fromObject, field "error" errorDecoder .fromObject] depth node
  .ok (← found.getD "result" (nullable result) none, ← found.getD "error" errorDecoder none)

def scoreDecoder : Json.Decoder Score := fun depth node => (number depth node).map Score.ofNumber

def metadataDecoder : Json.Decoder (Option Json) := nullable any

def matchDecoder : Json.Decoder Match := fun depth node => do
  let found ← record
    [field "id" string .never, field "score" scoreDecoder .never,
      field "metadata" metadataDecoder .anywhere] depth node
  .ok
    ⟨← found.get "id" string, ← found.get "score" scoreDecoder,
      ← found.getD "metadata" metadataDecoder none⟩

def deletedDecoder : Json.Decoder Nat := fun depth node => do
  (← record [field "deleted" word64 .never] depth node).get "deleted" word64

def idDecoder : Json.Decoder String := fun depth node => do
  (← record [field "id" string .never] depth node).get "id" string

def pageDecoder : Json.Decoder Page := fun depth node => do
  let found ← record
    [field "nextCursor" string .anywhere, field "vectors" (list idDecoder) .anywhere] depth node
  let next ← found.getD "nextCursor" string ""
  .ok ⟨← found.getD "vectors" (list idDecoder) [], if next.isEmpty then none else some next⟩

end

/-- What is said about an answer that is not of the wanted form. -/
def unreadable : Error := .decode "unexpected answer"

/-- The result of an answer that says it succeeded. -/
def resultOf {α : Type} (decoder : Json.Decoder α) (text : Chars) : Except Error α :=
  match (envelope decoder).text text with
  | .error _ => .error unreadable
  | .ok (_, some message) => .error (errorOf 200 message)
  | .ok (some result, none) => .ok result
  | .ok (none, none) => .error (.decode "response has no result")

/-- The error of an answer that says it failed: its message, or all of its text. -/
def failureOf (status : Nat) (text : Chars) : Error :=
  match (envelope Json.Decoder.any).text text with
  | .ok (_, some message) => errorOf status message
  | _ => errorOf status (String.ofList (trim text))

/-! ### Calls -/

/-- The outcome of one request: an answer that counts, or an error after which it is repeated. -/
inductive Outcome (α : Type) where
  | final (result : Except Error α)
  | again (e : Error)

/-- Requests are repeated when there were too many, or when the index is in trouble. -/
def isTemporary (status : Nat) : Bool := status = 429 || (500 ≤ status && status < 600)

def outcomeOf {α : Type} (decoder : Json.Decoder α) : Except String Reply → Outcome α
  | .error message => .again (.transport message)
  | .ok reply =>
    match reply.text? with
    | none => .again (.transport "body")
    | some text =>
      if reply.isSuccess then .final (resultOf decoder text)
      else if isTemporary reply.status then .again (failureOf reply.status text)
      else .final (.error (failureOf reply.status text))

/-- The seconds before an attempt: none before the first, then one, and twice as many each time up to
half a minute. -/
def delayBefore (attempt : Nat) : Nat := if attempt = 0 then 0 else Nat.pow 2 (min (attempt - 1) 5)

variable {σ : Type} (client : Client) (transport : Transport σ)

/-- Send a request, and again after a temporary failure, as long as there are retries. -/
def attempts {α : Type} (decoder : Json.Decoder α) (request : Request) :
    (retries attempt : Nat) → StateM σ (Except Error α)
  | retries, attempt => do
    match outcomeOf decoder (← transport.send { request with delay := delayBefore attempt }) with
    | .final result => pure result
    | .again e =>
      match retries with
      | 0 => pure (.error e)
      | retries + 1 => attempts decoder request retries (attempt + 1)

def call {α : Type} (method path : String) (body : Json) (decoder : Json.Decoder α) :
    Step Error σ α :=
  ExceptT.mk <|
    attempts transport decoder
      ⟨method, client.baseUrl ++ path, client.token, [("content-type", "application/json")],
        some body, 0⟩
      client.maxRetries 0

def recordJson (r : Record) : Json :=
  .object [("id", .string r.id), ("data", .string r.data), ("metadata", r.metadata)]

/-- A field that is left out when it is absent. -/
def optionalField (name : String) : Option String → List (String × Json)
  | some value => [(name, .string value)]
  | none => []

def queryJson (request : Query) : Json :=
  .object
    ([("data", .string request.data), ("topK", .nat request.topK),
      ("includeMetadata", .bool request.includeMetadata)] ++ optionalField "filter" request.filter)

def rangeJson (request : Range) : Json :=
  .object
    ([("cursor", .string request.cursor), ("limit", .nat request.limit)] ++
      optionalField "prefix" request.start ++ [("includeMetadata", .bool false)])

/-- The hosted index. -/
def index : VectorIndex σ where
  upsert records := do
    let _ ← call client transport "POST" "/upsert-data" (.array (records.map recordJson))
      Json.Decoder.any
    pure ()
  query request :=
    call client transport "POST" "/query-data" (queryJson request) (Json.Decoder.list matchDecoder)
  delete ids :=
    if ids.isEmpty then pure 0
    else call client transport "DELETE" "/delete" (.strings ids) deletedDecoder
  range request := call client transport "POST" "/range" (rangeJson request) pageDecoder

end SourceIndex.Remote.Upstash
