import SourceIndex.Archive.PathFilter
import SourceIndex.Credentials
import SourceIndex.Entity.Catalog
import SourceIndex.Job.Store
import SourceIndex.Progress
import SourceIndex.RepoName
import SourceIndex.VectorIndex

/-!
What the service works with: its collaborators, each on a state of its own, and the world that these
states make up together with the clock, the runs that wait and the checkpoints that were reported. So
a step of one collaborator leaves the states of the others as they are.
-/

namespace SourceIndex

/-- The host of repositories, and the tokens that users have for it. -/
structure Host (R : Type) where
  token : (user : String) → Action R (Option String)
  defaultBranch : RepoName → (token : String) → Action R String
  /-- The gzipped archive of a branch. -/
  download : RepoName → (branch token : String) → Action R (List UInt8)

structure Service (J R V : Type) where
  jobs : JobStore J
  host : Host R
  index : VectorIndex V
  filter : Archive.PathFilter
  catalog : Catalog
  /-- The time that each reading of the clock gives. -/
  clock : Nat → Time
  /-- After how many seconds a run is given up. -/
  timeout : Nat
  /-- For how many seconds an active run holds its key after its last write. -/
  staleAfter : Nat
  /-- How many pages of ids a deletion follows before it counts as endless. -/
  pageLimit : Nat

structure World (J R V : Type) where
  jobs : J
  host : R
  index : V
  /-- How often the clock was read. -/
  readings : Nat
  /-- The runs that were accepted and are not executed yet, in order. -/
  waiting : List Job.Key
  /-- In order. -/
  reports : List Progress.Event

namespace World

variable {J R V α : Type}

def onJobs (step : Action J α) : Action (World J R V) α :=
  step.within World.jobs fun jobs world => { world with jobs }

def onHost (step : Action R α) : Action (World J R V) α :=
  step.within World.host fun host world => { world with host }

def onIndex (step : Action V α) : Action (World J R V) α :=
  step.within World.index fun index world => { world with index }

def report (event : Progress.Event) : Action (World J R V) Unit :=
  modify fun world => { world with reports := world.reports ++ [event] }

/-- Read the clock. -/
def time (clock : Nat → Time) : Action (World J R V) Time := do
  let world ← get
  set { world with readings := world.readings + 1 }
  pure (clock world.readings)

end World

namespace Service

/-- The address of a repository. -/
def repoUrl (repo : String) : String := "https://github.com/" ++ repo

variable {J R V : Type} (service : Service J R V)

def now : Action (World J R V) Time := World.time service.clock

/-- A run whose last write is before this second does not hold its key any more. -/
def staleBefore : Action (World J R V) Int := do
  pure ((← service.now).seconds - Int.bmod service.staleAfter (Nat.pow 2 64))

def updateJob (key : Job.Key) (update : Job.Update) : Action (World J R V) Unit := do
  let now ← service.now
  World.onJobs (service.jobs.update key update now.seconds)

end Service
end SourceIndex
