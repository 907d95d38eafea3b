import SourceIndex.Json
import SourceIndex.Step
import SourceIndex.Text.Utf8

/-!
The network as the clients see it: a request is sent, and either nothing answers or there is an answer
with a status and a body that arrives in pieces and may break off. What answers is a state of its own.
-/

namespace SourceIndex.Remote
open Text

structure Request where
  method : String
  url : String
  /-- The token that authorizes the request. -/
  bearer : String
  headers : List (String × String)
  body : Option Json
  /-- How many seconds are waited before it is sent. -/
  delay : Nat

structure Reply where
  status : Nat
  pieces : List (List UInt8)
  /-- The last piece was the end of the body; otherwise it broke off. -/
  complete : Bool
  deriving DecidableEq, Repr

abbrev Transport (σ : Type) := Request → StateM σ (Except String Reply)

namespace Reply

def isSuccess (reply : Reply) : Bool := 200 ≤ reply.status && reply.status < 300

/-- The whole body. -/
def body? (reply : Reply) : Option (List UInt8) :=
  if reply.complete then some reply.pieces.flatten else none

/-- The whole body as a text, with what is no text replaced. -/
def text? (reply : Reply) : Option Chars := reply.body?.map decodeLossy

end Reply

/-- A value of a header: no control characters but tabs. -/
def isHeaderValue (s : String) : Bool :=
  s.toList.all fun c => c = '\t' || (32 ≤ c.toNat && c.toNat ≠ 127)

/-- Send a request, unless its token cannot stand in a header. -/
def Transport.send {σ : Type} (transport : Transport σ) (request : Request) :
    StateM σ (Except String Reply) :=
  if isHeaderValue request.bearer then transport request else pure (.error "invalid header value")

/-- A network in which nothing answers. -/
def Transport.unreachable {σ : Type} : Transport σ := fun _ => pure (.error "unreachable")

/-- An address without slashes at its end. -/
def withoutSlashes (url : String) : String :=
  String.ofList (url.toList.reverse.dropWhile (· = '/')).reverse

end SourceIndex.Remote
