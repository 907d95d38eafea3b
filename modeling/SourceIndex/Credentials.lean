import SourceIndex.Failure

/-!
Access tokens of users, which are looked up when a run starts. If their table is gone, every access
fails.
-/

namespace SourceIndex

structure Credentials where
  tokens : List (String × String)
  gone : Bool
  deriving DecidableEq, Repr

namespace Credentials

def empty : Credentials := ⟨[], false⟩

def token? (credentials : Credentials) (user : String) : Option String :=
  credentials.tokens.lookup user

/-- What every access fails with if the table is gone. -/
def missing : Failure := .missingTable "user_credentials"

/-- Store a token, in place of an earlier one. -/
def put (user token : String) (credentials : Credentials) : Credentials :=
  { credentials with tokens := (user, token) :: credentials.tokens.filter (·.1 != user) }

def lookup (user : String) : Action Credentials (Option String) := do
  let credentials ← get
  if credentials.gone then throw missing else pure (credentials.token? user)

def store (user token : String) : Action Credentials Unit := do
  let credentials ← get
  if credentials.gone then throw missing else set (credentials.put user token)

end Credentials
end SourceIndex
