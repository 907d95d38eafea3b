import SourceIndex.Cli.Arguments
import SourceIndex.Cli.Database
import SourceIndex.Remote.Backend
import SourceIndex.Service.Commands

/-!
What a command does, as a function of the database that it finds: the text and the checkpoints that it
prints, whether it fails and how, and the database that it leaves. The index within the process starts
empty.
-/

namespace SourceIndex.Cli
open Text

/-- What a command prints and how it ends. -/
structure Outcome where
  code : Nat
  stdout : String
  stderr : String
  deriving DecidableEq, Repr

namespace Outcome

def success (stdout : String) : Outcome := ⟨0, stdout, ""⟩

/-- The causes of a failure in order, with numbers if there are several. -/
def causes (texts : List String) : String :=
  match texts with
  | [] => ""
  | [text] => "\n\nCaused by:\n    " ++ text
  | texts =>
    "\n\nCaused by:" ++
      "".intercalate (texts.zipIdx.map fun (text, i) => "\n    " ++ toString i ++ ": " ++ text)

/-- The text for a failure: what was attempted first, and then the causes. -/
def failureText (failure : Failure) : String :=
  let chain := failure.attempts ++ failure.cause.text?.toList
  "Error: " ++ chain.headD "" ++ causes chain.tail ++ "\n"

def failed (stderr : String) (failure : Failure) : Outcome :=
  ⟨1, "", stderr ++ failureText failure⟩

/-- The arguments make no sense. -/
def misuse : Outcome := ⟨2, "", ""⟩

/-- The program stopped at a fault. -/
def stopped : Outcome := ⟨101, "", ""⟩

def version : Outcome := success "rindex 0.1.0\n"

/-- The outcome for arguments that ask for no command. -/
def ofWish : Wish → Outcome
  | .version => version
  | .help => success ""
  | .run _ | .unclear => misuse

end Outcome

/-- What a command finds around it. -/
structure Surroundings (σ : Type) where
  overflow : Overflow
  transport : Remote.Transport σ
  network : σ
  clock : Nat → Time
  /-- Checkpoints are shown to people when nothing else is said. -/
  terminal : Bool
  pageLimit : Nat

variable {σ : Type} (around : Surroundings σ)

/-- Do a step of the service on the database. -/
def withService (config : Config) (mode : Progress.Mode)
    (step : Service Job.Table (Remote.HostState σ) (Remote.IndexState σ) →
      Action (World Job.Table (Remote.HostState σ) (Remote.IndexState σ)) String)
    (database : Database) : Outcome × Database :=
  match
    (Remote.serviceOf around.transport around.overflow config Job.Table.store Catalog.standard around.clock
      around.pageLimit).run
  with
  | .error failure => (.failed "" failure, database)
  | .ok none => (.stopped, database)
  | .ok (some service) =>
    let world : World Job.Table (Remote.HostState σ) (Remote.IndexState σ) :=
      ⟨database.jobs, (database.credentials, around.network),
        (VectorIndex.Local.empty, around.network), 0, [], []⟩
    let (result, world) := (step service).run.run world
    let database : Database := ⟨world.jobs, world.host.1⟩
    let shown := mode.text world.reports
    match result with
    | .ok stdout => (⟨0, stdout, shown⟩, database)
    | .error failure => (.failed shown failure, database)

/-- Store a token. -/
def storeToken (user token : String) (database : Database) : Outcome × Database :=
  match (Credentials.store user token).run.run database.credentials with
  | (.ok _, credentials) =>
    (.success ("Stored credential for " ++ user ++ ".\n"), { database with credentials })
  | (.error failure, _) => (.failed "" failure, database)

/-- What is wrong with an address to be reached at; a sound one is not reachable from here. -/
def bindFailure (bind : String) : Failure :=
  let afterColon := (bind.toList.reverse.takeWhile (· ≠ ':')).reverse
  if afterColon.length = bind.toList.length then .stated "invalid socket address"
  else if (parseNat? 65535 afterColon).isNone then .stated "invalid port value"
  else .outside

/-- How the checkpoints of a run are shown. -/
def modeOf (terminal : Bool) (progress : Option Progress.Mode) : Progress.Mode :=
  progress.getD (if terminal then .human else .off)

/-- Execute a command under a configuration. -/
def execute (config : Config) (command : Command) (database : Database) : Outcome × Database :=
  match command with
  | .init => (.success "Database initialized successfully.\n", database)
  | .setCredential user token => storeToken user token database
  | .index repo user progress =>
    withService around config (modeOf around.terminal progress)
      (fun service => service.showRun ⟨user, repo⟩) database
  | .status user repo =>
    withService around config .off (fun service => service.showStatus user repo) database
  | .delete repo user =>
    withService around config .off (fun service => service.showDeletion ⟨user, repo⟩) database
  | .search query repo user topK =>
    withService around config .off (fun service => service.showSearch query ⟨user, repo⟩ topK)
      database
  | .serve => withService around config .off (fun _ => throw (bindFailure config.server.bind)) database

end SourceIndex.Cli
