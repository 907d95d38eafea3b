import SourceIndex.Failure
import SourceIndex.Job

/-!
Job stores. A store is given by its operations on some state; each operation is one atomic step and is
told the time. Claiming reserves a key for a new run: it succeeds unless an active run holds the key,
and then leaves a record that waits, with its progress and counters reset.
-/

namespace SourceIndex
open Job

structure JobStore (σ : Type) where
  /-- Reserve a key; a run whose last write is before `staleBefore` does not hold it any more. -/
  claim : Key → (url : String) → (staleBefore now : Int) → Action σ (Option Job)
  /-- Create the record or reset it to the start of a run. -/
  startRun : Key → (url : String) → (now : Int) → Action σ Job
  /-- Update a record that exists. -/
  update : Key → Update → (now : Int) → Action σ Unit
  get : Key → Action σ (Option Job)
  /-- The records of a user in the order of their repositories. -/
  list : (user : String) → Action σ (List Job)
  /-- Whether a record was there to delete. -/
  delete : Key → Action σ Bool

namespace JobStore

/-- What is said about an update of a record that does not exist. -/
def missing (key : Key) : Failure :=
  .stated ("no index job for " ++ key.repo ++ " (user " ++ key.user ++ ")")

/-- Whether the record of a key is that of an active run. -/
def isActive {σ : Type} (store : JobStore σ) (key : Key) : Action σ Bool := do
  pure ((← store.get key).any (·.status.isActive))

/-- A store on a part of a larger state. -/
def within {σ τ : Type} (get : σ → τ) (set : τ → σ → σ) (store : JobStore τ) : JobStore σ where
  claim key url staleBefore now := (store.claim key url staleBefore now).within get set
  startRun key url now := (store.startRun key url now).within get set
  update key update now := (store.update key update now).within get set
  get key := (store.get key).within get set
  list user := (store.list user).within get set
  delete key := (store.delete key).within get set

end JobStore

namespace Job

/-- Put an item into a list sorted by key, in place of one of the same key. -/
def putBy {α : Type} (keyOf : α → Key) (item : α) : List α → List α
  | [] => [item]
  | a :: rest =>
    if (keyOf item).lt (keyOf a) then item :: a :: rest
    else if keyOf item = keyOf a then item :: rest
    else a :: putBy keyOf item rest

def findBy {α : Type} (keyOf : α → Key) (key : Key) (items : List α) : Option α :=
  items.find? fun a => keyOf a == key

def removeBy {α : Type} (keyOf : α → Key) (key : Key) (items : List α) : List α :=
  items.filter fun a => keyOf a != key

end Job
end SourceIndex
