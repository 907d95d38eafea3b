import SourceIndex.Progress

/-!
The arguments of the command line: a command with its options and its plain arguments. Options have a
long name and a value, which follows them or an equals sign; each is given at most once. The path of
the configuration may be given before the command or among its options.
-/

namespace SourceIndex.Cli
open Text

inductive Command where
  | init
  | setCredential (user token : String)
  | index (repo user : String) (progress : Option Progress.Mode)
  | status (user : String) (repo : Option String)
  | delete (repo user : String)
  | search (query repo user : String) (topK : Nat)
  | serve
  deriving DecidableEq, Repr

structure Invocation where
  config : String
  command : Command
  deriving DecidableEq, Repr

/-- What the arguments ask for. -/
inductive Wish where
  | run (invocation : Invocation)
  | version
  | help
  /-- The arguments make no sense. -/
  | unclear
  deriving DecidableEq, Repr

def defaultConfig : String := "./config/rindex.toml"

def configOption : String := "config"

/-- Options and plain arguments, in order. -/
structure Found where
  options : List (String × String)
  plain : List String

/-- What ends the reading of arguments. -/
inductive Stop where
  | help
  | version
  | unclear
  deriving DecidableEq

/-- An argument that is no value of an option. -/
def looksLikeOption (arg : String) : Bool :=
  match arg.toList with
  | '-' :: _ :: _ => true
  | _ => false

/-- The name of an option, and the value after an equals sign. -/
def splitOption (arg : String) : Option (String × Option String) :=
  match arg.toList with
  | '-' :: '-' :: rest =>
    match splitFirst? ['='] rest with
    | some (name, value) => some (String.ofList name, some (String.ofList value))
    | none => some (String.ofList rest, none)
  | _ => none

/-- Note an option that is known and was not given yet. -/
def noteOption (known : List String) (name value : String) (found : Found) : Except Stop Found :=
  if !known.contains name || (found.options.lookup name).isSome then .error .unclear
  else if name = configOption && value.isEmpty then .error .unclear
  else .ok { found with options := (name, value) :: found.options }

/-- The options and plain arguments of a command that knows some options; the option that was just
named may wait for its value. -/
def collect (known : List String) : Option String → List String → Found → Except Stop Found
  | some _, [], _ => .error .unclear
  | none, [], found => .ok found
  | some name, value :: rest, found =>
    if looksLikeOption value then .error .unclear
    else
      match noteOption known name value found with
      | .ok found => collect known none rest found
      | .error stop => .error stop
  | none, arg :: rest, found =>
    if arg = "--" then .ok { found with plain := found.plain ++ rest }
    else if arg = "--help" || arg = "-h" then .error .help
    else if !looksLikeOption arg then
      collect known none rest { found with plain := found.plain ++ [arg] }
    else
      match splitOption arg with
      | some (name, some value) =>
        match noteOption known name value found with
        | .ok found => collect known none rest found
        | .error stop => .error stop
      | some (name, none) => collect known (some name) rest found
      | none => .error .unclear

/-- The arguments before the name of the command, and those from it on; the option that was just
named may wait for its value. -/
def beforeCommand : Option String → List String → Found → Except Stop (Found × List String)
  | _, [], _ => .error .unclear
  | some name, value :: rest, found =>
    if looksLikeOption value then .error .unclear
    else
      match noteOption [configOption] name value found with
      | .ok found => beforeCommand none rest found
      | .error stop => .error stop
  | none, arg :: rest, found =>
    if arg = "--help" || arg = "-h" then .error .help
    else if arg = "--version" || arg = "-V" then .error .version
    else if !looksLikeOption arg then .ok (found, arg :: rest)
    else
      match splitOption arg with
      | some (name, some value) =>
        match noteOption [configOption] name value found with
        | .ok found => beforeCommand none rest found
        | .error stop => .error stop
      | some (name, none) => beforeCommand (some name) rest found
      | none => .error .unclear

/-- An option that must be given. -/
def Found.required (found : Found) (name : String) : Except Stop String :=
  match found.options.lookup name with
  | some value => .ok value
  | none => .error .unclear

/-- An option with a value that is read. -/
def Found.optional {α : Type} (found : Found) (name : String) (read : String → Option α) :
    Except Stop (Option α) :=
  match found.options.lookup name with
  | none => .ok none
  | some value =>
    match read value with
    | some a => .ok (some a)
    | none => .error .unclear

/-- The plain arguments of a command, with its options. -/
def commandOf (name : String) (args : List String) : Except Stop (Found × Command) := do
  let read (known : List String) : Except Stop Found :=
    collect (configOption :: known) none args ⟨[], []⟩
  match name with
  | "init" =>
    let found ← read []
    if found.plain.isEmpty then .ok (found, .init) else .error .unclear
  | "serve" =>
    let found ← read []
    if found.plain.isEmpty then .ok (found, .serve) else .error .unclear
  | "index" =>
    let found ← read ["user", "progress"]
    let progress ← found.optional "progress" Progress.Mode.ofName?
    match found.plain with
    | [repo] => .ok (found, .index repo (← found.required "user") progress)
    | _ => .error .unclear
  | "status" =>
    let found ← read ["user"]
    match found.plain with
    | [] => .ok (found, .status (← found.required "user") none)
    | [repo] => .ok (found, .status (← found.required "user") (some repo))
    | _ => .error .unclear
  | "delete" =>
    let found ← read ["user"]
    match found.plain with
    | [repo] => .ok (found, .delete repo (← found.required "user"))
    | _ => .error .unclear
  | "search" =>
    let found ← read ["repo", "user", "top-k"]
    let topK ← found.optional "top-k" fun s => parseNat? maxWord64 s.toList
    match found.plain with
    | [query] =>
      let repo ← found.required "repo"
      .ok (found, .search query repo (← found.required "user") (topK.getD 10))
    | _ => .error .unclear
  | _ => .error .unclear

/-- The command that stores credentials has a command of its own. -/
def credentialOf (args : List String) : Except Stop (Found × Command) := do
  let (before, args) ← beforeNested args ⟨[], []⟩
  match args with
  | "set" :: rest =>
    let found ← collect [configOption] none rest ⟨[], []⟩
    match found.plain with
    | [user, token] =>
      .ok ({ found with options := found.options ++ before.options }, .setCredential user token)
    | _ => .error .unclear
  | "help" :: _ => .error .help
  | _ => .error .unclear
where
  /-- A command within a command has no version. -/
  beforeNested (args : List String) (found : Found) : Except Stop (Found × List String) :=
    match beforeCommand none args found with
    | .error .version => .error .unclear
    | result => result

/-- The wish of the arguments; of two paths of the configuration the later one counts. -/
def parse (args : List String) : Wish :=
  let result : Except Stop Invocation := do
    let (before, args) ← beforeCommand none args ⟨[], []⟩
    match args with
    | [] => .error .unclear
    | "help" :: _ => .error .help
    | name :: rest =>
      let (found, command) ← if name = "credential" then credentialOf rest else commandOf name rest
      let config := (found.options ++ before.options).lookup configOption
      .ok ⟨config.getD defaultConfig, command⟩
  match result with
  | .ok invocation => .run invocation
  | .error .help => .help
  | .error .version => .version
  | .error .unclear => .unclear

end SourceIndex.Cli
