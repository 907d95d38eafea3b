import SourceIndex.Archive.Glob
import SourceIndex.Failure
import SourceIndex.Toml.Document

/-!
The configuration of the service: where its database is, how its interface is reached, the clients for
the repository host and for the vector index, and the limits of runs. All but the database has
defaults. What the file does not say about the vector index may stand in the environment.
-/

namespace SourceIndex

structure DatabaseConfig where
  path : String
  deriving DecidableEq, Repr

structure ServerConfig where
  bind : String
  deriving DecidableEq, Repr

structure HostConfig where
  apiBase : String
  userAgent : String
  timeoutSecs : Nat
  maxTarballMb : Nat
  deriving DecidableEq, Repr

structure VectorConfig where
  /-- The name of the kind of index: remote, or within the process. -/
  provider : String
  url : Option String
  token : Option String
  timeoutSecs : Nat
  maxRetries : Nat
  deriving DecidableEq, Repr

structure IndexingConfig where
  runTimeoutSecs : Nat
  /-- For how many seconds an active run holds its key after its last write. -/
  staleAfterSecs : Nat
  maxFileBytes : Nat
  excludeGlobs : List String
  deriving DecidableEq, Repr

structure Config where
  db : DatabaseConfig
  server : ServerConfig
  github : HostConfig
  vector : VectorConfig
  indexing : IndexingConfig
  deriving DecidableEq, Repr

def ServerConfig.standard : ServerConfig := ⟨"127.0.0.1:7341"⟩

def HostConfig.standard : HostConfig := ⟨"https://api.github.com", "rindex/0.1.0", 120, 500⟩

def VectorConfig.standard : VectorConfig := ⟨"upstash", none, none, 30, 3⟩

def IndexingConfig.standard : IndexingConfig := ⟨300, 600, 1048576, []⟩

/-- What becomes of a product that does not fit a word of 64 bits, which depends on how the program was built: a fault
that stops it, or what is left in the word. -/
inductive Overflow where
  | checked
  | wrapping
  deriving DecidableEq, Repr

/-- The product of two words of 64 bits; none is a fault. -/
def Overflow.mul? (overflow : Overflow) (a b : Nat) : Option Nat :=
  if a * b < Nat.pow 2 64 then some (a * b)
  else
    match overflow with
    | .checked => none
    | .wrapping => some (a * b % Nat.pow 2 64)

/-- The size of an archive that is still downloaded. -/
def HostConfig.maxTarballBytes (host : HostConfig) (overflow : Overflow) : Option Nat := do
  overflow.mul? (← overflow.mul? host.maxTarballMb 1024) 1024

namespace Config
open Toml

/-- Defaults everywhere, and the index within the process. -/
def minimal (path : String) : Config :=
  ⟨⟨path⟩, .standard, .standard, { VectorConfig.standard with provider := "memory" }, .standard⟩

/-! ### Reading -/

/-- A decoder of values. -/
abbrev Decoder (α : Type) := Value → Option α

def text : Decoder String
  | .string s => some s
  | _ => none

/-- A number that is not negative and within a bound. -/
def natUpTo (bound : Nat) : Decoder Nat
  | .integer n => if 0 ≤ n && n ≤ (bound : Int) then some n.toNat else none
  | _ => none

def word64 : Decoder Nat := natUpTo (Nat.pow 2 64 - 1)

def word32 : Decoder Nat := natUpTo (Nat.pow 2 32 - 1)

def texts : Decoder (List String)
  | .array items => items.mapM text
  | _ => none

/-- What is known of a record: a table, or the values of its fields in order. -/
inductive Source where
  | table (fields : List (String × Value))
  | items (values : List Value)

def source? : Decoder Source
  | .table fields => some (.table fields)
  | .array items => some (.items items)
  | _ => none

/-- The value of a field of a record, which is also known by its place. -/
def Source.value? : Source → String → Nat → Option Value
  | .table fields, name, _ => fields.lookup name
  | .items values, _, place => values[place]?

/-- A field that has a default. -/
def Source.getD {α : Type} (source : Source) (name : String) (place : Nat) (decoder : Decoder α)
    (absent : α) : Option α :=
  match source.value? name place with
  | some v => decoder v
  | none => some absent

/-- A field that may be missing, but only from a table. -/
def Source.get? {α : Type} (source : Source) (name : String) (place : Nat) (decoder : Decoder α) :
    Option (Option α) :=
  match source.value? name place, source with
  | some v, _ => (decoder v).map some
  | none, .table _ => some none
  | none, .items _ => none

def databaseDecoder : Decoder DatabaseConfig := fun v => do
  let source ← source? v
  some ⟨← text (← source.value? "path" 0)⟩

def serverDecoder : Decoder ServerConfig := fun v => do
  let source ← source? v
  some ⟨← source.getD "bind" 0 text ServerConfig.standard.bind⟩

def hostDecoder : Decoder HostConfig := fun v => do
  let source ← source? v
  let standard := HostConfig.standard
  some
    { apiBase := ← source.getD "api_base" 0 text standard.apiBase
      userAgent := ← source.getD "user_agent" 1 text standard.userAgent
      timeoutSecs := ← source.getD "timeout_secs" 2 word64 standard.timeoutSecs
      maxTarballMb := ← source.getD "max_tarball_mb" 3 word64 standard.maxTarballMb }

def vectorDecoder : Decoder VectorConfig := fun v => do
  let source ← source? v
  let standard := VectorConfig.standard
  some
    { provider := ← source.getD "provider" 0 text standard.provider
      url := ← source.get? "url" 1 text
      token := ← source.get? "token" 2 text
      timeoutSecs := ← source.getD "timeout_secs" 3 word64 standard.timeoutSecs
      maxRetries := ← source.getD "max_retries" 4 word32 standard.maxRetries }

def indexingDecoder : Decoder IndexingConfig := fun v => do
  let source ← source? v
  let standard := IndexingConfig.standard
  some
    { runTimeoutSecs := ← source.getD "run_timeout_secs" 0 word64 standard.runTimeoutSecs
      staleAfterSecs := ← source.getD "stale_after_secs" 1 word64 standard.staleAfterSecs
      maxFileBytes := ← source.getD "max_file_bytes" 2 word64 standard.maxFileBytes
      excludeGlobs := ← source.getD "exclude_globs" 3 texts standard.excludeGlobs }

/-- The configuration in a text. -/
def parse? (content : String) : Option Config := do
  let source : Source := .table (← Toml.parse? content)
  some
    { db := ← databaseDecoder (← source.value? "db" 0)
      server := ← source.getD "server" 1 serverDecoder .standard
      github := ← source.getD "github" 2 hostDecoder .standard
      vector := ← source.getD "vector" 3 vectorDecoder .standard
      indexing := ← source.getD "indexing" 4 indexingDecoder .standard }

/-! ### Checking -/

def urlVariable : String := "UPSTASH_VECTOR_REST_URL"

def tokenVariable : String := "UPSTASH_VECTOR_REST_TOKEN"

/-- Fill in what the environment says. -/
def withEnvironment (environment : String → Option String) (config : Config) : Config :=
  { config with vector :=
    { config.vector with
      url := config.vector.url <|> environment urlVariable
      token := config.vector.token <|> environment tokenVariable } }

/-- Refuse a configuration for a reason. -/
def refuseIf (condition : Bool) (reason : String) : Except Failure Unit :=
  if condition then .error (.stated reason) else .ok ()

def checkGlob (text : String) : Except Failure Unit :=
  if (Archive.Glob.parse? text).isSome then .ok ()
  else
    .error (Failure.outside.during ("Invalid indexing.exclude_globs pattern: '" ++ text ++ "'"))

/-- A remote index has an address and a token. -/
def checkVector (vector : VectorConfig) : Except Failure Unit :=
  if vector.provider = "memory" then .ok ()
  else if vector.provider = "upstash" then do
    refuseIf vector.url.isNone
      ("vector.url must be set (or " ++ urlVariable ++ ") when provider is 'upstash'")
    refuseIf vector.token.isNone
      ("vector.token must be set (or " ++ tokenVariable ++ ") when provider is 'upstash'")
  else
    .error (.stated
      ("Unknown vector provider: '" ++ vector.provider ++ "'. Must be upstash or memory."))

def check (config : Config) : Except Failure Unit := do
  refuseIf (config.github.timeoutSecs = 0) "github.timeout_secs must be > 0"
  refuseIf (config.github.maxTarballMb = 0) "github.max_tarball_mb must be > 0"
  let indexing := config.indexing
  refuseIf (indexing.runTimeoutSecs = 0) "indexing.run_timeout_secs must be > 0"
  refuseIf (indexing.staleAfterSecs < indexing.runTimeoutSecs)
    "indexing.stale_after_secs must be >= indexing.run_timeout_secs"
  refuseIf (indexing.maxFileBytes = 0) "indexing.max_file_bytes must be > 0"
  indexing.excludeGlobs.forM checkGlob
  checkVector config.vector

/-- The configuration in the file at a path, whose content is absent if it cannot be read. -/
def load (path : String) (content : Option String) (environment : String → Option String) :
    Except Failure Config := do
  match content with
  | none => .error (Failure.outside.during ("Failed to read config file: " ++ path))
  | some content =>
    match parse? content with
    | none => .error (Failure.outside.during "Failed to parse config file")
    | some config =>
      let config := config.withEnvironment environment
      check config
      pure config

end Config
end SourceIndex
