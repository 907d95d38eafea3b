import SourceIndex.VectorIndex

/-!
An index that plays back answers given beforehand, one list per kind of call. Each call takes the next
answer of its list and the last one repeats; a list without answers fails. The requests are kept.
-/

namespace SourceIndex.VectorIndex

/-- A request that an index received. -/
inductive Request where
  | upsert (records : List Record)
  | query (request : Query)
  | delete (ids : List String)
  | range (request : Range)

structure Recorded where
  upserts : List (Except Error Unit)
  queries : List (Except Error (List Match))
  deletes : List (Except Error Nat)
  ranges : List (Except Error Page)
  /-- In order. -/
  requests : List Request

namespace Recorded

/-- The next answer and the answers after it. -/
def take {α : Type} : List (Except Error α) → Except Error α × List (Except Error α)
  | [] => (.error (.transport "no answer"), [])
  | [answer] => (answer, [answer])
  | answer :: rest => (answer, rest)

def log (request : Request) : Step Error Recorded Unit :=
  modify fun state => { state with requests := state.requests ++ [request] }

def index : VectorIndex Recorded where
  upsert records := do
    log (.upsert records)
    let state ← get
    let (answer, rest) := take state.upserts
    set { state with upserts := rest }
    liftExcept answer
  query request := do
    log (.query request)
    let state ← get
    let (answer, rest) := take state.queries
    set { state with queries := rest }
    liftExcept answer
  delete ids := do
    log (.delete ids)
    let state ← get
    let (answer, rest) := take state.deletes
    set { state with deletes := rest }
    liftExcept answer
  range request := do
    log (.range request)
    let state ← get
    let (answer, rest) := take state.ranges
    set { state with ranges := rest }
    liftExcept answer

end Recorded
end SourceIndex.VectorIndex
