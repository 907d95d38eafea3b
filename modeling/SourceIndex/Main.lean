import SourceIndex.Cli.Execute
import Std.Time.DateTime.Timestamp

/-!
The command line: reads the arguments, the configuration and the database, executes the command and
writes back what is kept. It has no network of its own, so requests to other hosts fail.
-/

namespace SourceIndex.Cli

/-- The text of a file that can be read. -/
def readText? (path : String) : IO (Option String) := do
  try
    return some (← IO.FS.readFile path)
  catch _ =>
    return none

/-- The database at a path, which is made if there is none. -/
def openDatabase (path : String) : IO (Except Failure Database) := do
  if !Database.isKept path then return .ok .empty
  if let some directory := Database.directory? path then
    try
      IO.FS.createDirAll directory
    catch _ =>
      return .error (Database.homeless directory)
  try
    let file ← IO.FS.Handle.mk path .append
    file.flush
    match Database.ofText? (← IO.FS.readFile path) with
    | some database => return .ok database
    | none => return .error (Database.unreadable path)
  catch _ =>
    return .error (Database.unreadable path)

def currentTime : IO Time := do
  let nanos := (← Std.Time.Timestamp.now).toNanosecondsSinceUnixEpoch.val
  return ⟨nanos / 1000000000, (nanos % 1000000000).toNat⟩

/-- Execute a command under a configuration, on the database that it names. -/
def executeKept (config : Config) (command : Command) : IO Outcome := do
  match ← openDatabase config.db.path with
  | .error failure => return .failed "" failure
  | .ok database =>
    let now ← currentTime
    let terminal ← (← IO.getStderr).isTty
    let around : Surroundings Unit := ⟨.checked, .unreachable, (), fun _ => now, terminal, 100000⟩
    let (outcome, kept) := execute around config command database
    if Database.isKept config.db.path && kept != database then
      IO.FS.writeFile config.db.path kept.toText
    return outcome

/-- What the arguments lead to. -/
def outcomeOf (args : List String) : IO Outcome := do
  match parse args with
  | .run invocation =>
    let content ← readText? invocation.config
    let url ← IO.getEnv Config.urlVariable
    let token ← IO.getEnv Config.tokenVariable
    let environment (name : String) : Option String :=
      if name = Config.urlVariable then url
      else if name = Config.tokenVariable then token
      else none
    match Config.load invocation.config content environment with
    | .ok config => executeKept config invocation.command
    | .error failure => return .failed "" failure
  | wish => return .ofWish wish

end SourceIndex.Cli

def main (args : List String) : IO UInt32 := do
  let outcome ← SourceIndex.Cli.outcomeOf args
  IO.print outcome.stdout
  IO.eprint outcome.stderr
  return outcome.code.toUInt32
