import SourceIndex.Job
import SourceIndex.Json.Compact

/-!
Checkpoints of a run as they are shown on a terminal, for people or for programs.
-/

namespace SourceIndex
open Text

namespace Progress

/-- A checkpoint of a run. -/
structure Event where
  repo : String
  status : Job.Status
  /-- In percent. -/
  percent : Nat
  indexedFiles : Nat
  totalFiles : Nat
  deriving DecidableEq, Repr

/-- How checkpoints are shown. -/
inductive Mode where
  | off
  | human
  | json
  deriving DecidableEq, Repr

/-- Commas between groups of three digits, counted from the end. -/
def groupDigits : Chars → Chars
  | [] => []
  | d :: rest =>
    if rest.length % 3 = 0 && !rest.isEmpty then d :: ',' :: groupDigits rest else d :: groupDigits rest

/-- A number with commas between thousands. -/
def grouped (n : Nat) : String := String.ofList (groupDigits (natText n))

namespace Event

/-- The line for people; files are only shown once their number is known. -/
def human (event : Event) : String :=
  let files :=
    if 0 < event.totalFiles then
      "  " ++ grouped event.indexedFiles ++ " / " ++ grouped event.totalFiles ++ " files"
    else ""
  "index " ++ event.repo ++ "  " ++ event.status.name ++ "  " ++
    String.ofList (padLeft 3 (natText event.percent)) ++ "%" ++ files ++ "\n"

/-- The line for programs. -/
def json (event : Event) : String :=
  Json.toText
    (.object
      [("event", .string "progress"),
        ("indexedFiles", .nat event.indexedFiles),
        ("progress", .nat event.percent),
        ("repo", .string event.repo),
        ("status", .string event.status.name),
        ("totalFiles", .nat event.totalFiles)]) ++ "\n"

end Event

def Mode.line : Mode → Event → String
  | .off, _ => ""
  | .human, event => event.human
  | .json, event => event.json

def Mode.ofName? (name : String) : Option Mode :=
  ["off", "human", "json"].idxOf? name |>.bind fun i => [Mode.off, .human, .json][i]?

/-- All that is shown of a run. -/
def Mode.text (mode : Mode) (events : List Event) : String := "".intercalate (events.map mode.line)

end Progress
end SourceIndex
