import SourceIndex.Entity
import SourceIndex.Json.Decode

/-!
What is stored beside a chunk, and its JSON form. Absent texts are written as `null`; on reading,
lists may be missing and absent texts may be missing or `null`.
-/

namespace SourceIndex.Chunk

structure Metadata where
  repo : String
  user : String
  path : String
  fileName : String
  url : String
  kind : EntityKind
  name : String
  startLine : Nat
  endLine : Nat
  content : String
  doc : Option String
  imports : List String
  exports : List String
  parent : Option String
  calls : List String
  deriving DecidableEq, Repr

namespace Metadata

/-- The field that holds the repository. -/
def repoField : String := "repoFullName"

/-- The field that holds the user. -/
def userField : String := "userId"

def toJson (m : Metadata) : Json :=
  .object
    [(repoField, .string m.repo),
      (userField, .string m.user),
      ("filePath", .string m.path),
      ("fileName", .string m.fileName),
      ("fileUrl", .string m.url),
      ("entityType", .string m.kind.name),
      ("entityName", .string m.name),
      ("startLine", .nat m.startLine),
      ("endLine", .nat m.endLine),
      ("content", .string m.content),
      ("docstring", Json.ofOption .string m.doc),
      ("imports", .strings m.imports),
      ("exportedSymbols", .strings m.exports),
      ("parentClass", Json.ofOption .string m.parent),
      ("calledFunctions", .strings m.calls)]

section
open Json.Decoder

def kindDecoder : Json.Decoder EntityKind := named EntityKind.ofName?

def text? : Json.Decoder (Option String) := nullable string

def texts : Json.Decoder (List String) := list string

/-- The fields in the order in which an array gives them. -/
def fields : List Field :=
  [field repoField string .never, field userField string .never, field "filePath" string .never,
    field "fileName" string .never, field "fileUrl" string .never,
    field "entityType" kindDecoder .never, field "entityName" string .never,
    field "startLine" word64 .never, field "endLine" word64 .never,
    field "content" string .never, field "docstring" text? .anywhere,
    field "imports" texts .anywhere, field "exportedSymbols" texts .anywhere,
    field "parentClass" text? .anywhere, field "calledFunctions" texts .anywhere]

def decoder : Json.Decoder Metadata := fun depth node => do
  let found ← record fields depth node
  .ok
    { repo := ← found.get repoField string
      user := ← found.get userField string
      path := ← found.get "filePath" string
      fileName := ← found.get "fileName" string
      url := ← found.get "fileUrl" string
      kind := ← found.get "entityType" kindDecoder
      name := ← found.get "entityName" string
      startLine := ← found.get "startLine" word64
      endLine := ← found.get "endLine" word64
      content := ← found.get "content" string
      doc := ← found.getD "docstring" text? none
      imports := ← found.getD "imports" texts []
      exports := ← found.getD "exportedSymbols" texts []
      parent := ← found.getD "parentClass" text? none
      calls := ← found.getD "calledFunctions" texts [] }

end

/-- The metadata that a stored JSON value holds, if it holds any. -/
def ofJson? (json : Json) : Option Metadata :=
  (decoder Json.Decoder.maxDepth json.toNode).toOption

end Metadata
end SourceIndex.Chunk
