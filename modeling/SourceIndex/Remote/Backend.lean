import SourceIndex.Remote.GitHub
import SourceIndex.Remote.Upstash
import SourceIndex.Service
import SourceIndex.VectorIndex.Local

/-!
The service that a configuration asks for: the index within the process or the hosted one, and the
host of repositories with the tokens that are stored here. The clients share a kind of network, and
each has a state of it.
-/

namespace SourceIndex.Remote

inductive Backend where
  | inProcess
  | hosted (client : Upstash.Client)
  deriving DecidableEq, Repr

/-- The kind of index that a configuration names. -/
def Backend.ofConfig (config : VectorConfig) : Except Failure Backend :=
  if config.provider = "memory" then .ok .inProcess
  else if config.provider = "upstash" then (Upstash.Client.ofConfig config).map .hosted
  else .error (.stated ("Unknown vector provider: '" ++ config.provider ++ "'"))

/-- The state of either kind of index. -/
abbrev IndexState (σ : Type) := VectorIndex.Local × σ

/-- The tokens, and the state of the network. -/
abbrev HostState (σ : Type) := Credentials × σ

variable {σ : Type} (transport : Transport σ)

def Backend.index : Backend → VectorIndex (IndexState σ)
  | .inProcess => VectorIndex.Local.index.within Prod.fst fun local' state => (local', state.2)
  | .hosted client =>
    (Upstash.index client transport).within Prod.snd fun network state => (state.1, network)

def GitHub.Client.host (client : GitHub.Client) : Host (HostState σ) where
  token user :=
    (Credentials.lookup user).within Prod.fst fun credentials state => (credentials, state.2)
  defaultBranch repo token :=
    (GitHub.defaultBranch client transport repo token).within Prod.snd
      fun network state => (state.1, network)
  download repo branch token :=
    (GitHub.download client transport repo branch token).within Prod.snd
      fun network state => (state.1, network)

/-- The service with a store of records, extractors and a clock; none if the program stops. -/
def serviceOf {J : Type} (overflow : Overflow) (config : Config) (jobs : JobStore J) (catalog : Catalog)
    (clock : Nat → Time) (pageLimit : Nat) : OptionT (Except Failure) (Service J (HostState σ) (IndexState σ)) := do
  let client ← OptionT.mk (GitHub.Client.ofConfig overflow config.github)
  let backend ← Backend.ofConfig config.vector
  let filter ← Archive.PathFilter.ofGlobs config.indexing.excludeGlobs config.indexing.maxFileBytes
  pure
    { jobs
      host := client.host transport
      index := backend.index transport
      filter
      catalog
      clock
      timeout := config.indexing.runTimeoutSecs
      staleAfter := config.indexing.staleAfterSecs
      pageLimit }

end SourceIndex.Remote
