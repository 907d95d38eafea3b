import SourceIndex.Digest.Sha256
import SourceIndex.Entity

/-!
Ids of chunks. An id is the namespace of its user and repository, a dash, and a hash of what tells the
entity apart; hashed fields are joined by a separator that no path and no repository name holds. So
all chunks of one user and repository share the start of their ids.
-/

namespace SourceIndex.Chunk
open Text

/-- The byte between hashed fields, the unit separator. -/
def separator : UInt8 := 0x1f

def namespaceDigits : Nat := 16

def entityDigits : Nat := 32

/-- The bytes that are hashed for a list of fields. -/
def fieldBytes (fields : List String) : List UInt8 :=
  [separator].intercalate (fields.map fun field => encode field.toList)

/-- The first digits of the hash of a list of fields. -/
def fieldHash (fields : List String) (digits : Nat) : Chars :=
  (Sha256.hexDigest (fieldBytes fields)).take digits

/-- The namespace of the chunks of a user and a repository. -/
def namespaceOf (user repo : String) : String :=
  String.ofList (fieldHash [user, repo] namespaceDigits)

/-- What the ids of all chunks of a user and a repository start with. -/
def idStart (user repo : String) : String := namespaceOf user repo ++ "-"

def entityFields (user repo path name : String) (kind : EntityKind) : List String :=
  [user, repo, path, name, kind.name]

def idFor (user repo path name : String) (kind : EntityKind) : String :=
  idStart user repo ++
    String.ofList (fieldHash (entityFields user repo path name kind) entityDigits)

end SourceIndex.Chunk
