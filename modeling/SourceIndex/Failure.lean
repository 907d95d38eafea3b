import SourceIndex.VectorIndex

/-!
Failures of the service: a cause, and what was being attempted, outermost first. The text of a failure
is the chain of attempts and the cause. A cause that arose outside, in a file, a database or a network,
brings words that are not the service's own; the outline of a failure leaves them out.
-/

namespace SourceIndex

inductive Failure.Cause where
  | stated (text : String)
  | index (e : VectorIndex.Error)
  /-- Raised outside the service, in words that may be known. -/
  | outside (words : Option String)
  /-- What was waited for never comes to an end. -/
  | endless
  deriving DecidableEq, Repr

structure Failure where
  attempts : List String
  cause : Failure.Cause
  deriving DecidableEq, Repr

namespace Failure

def stated (text : String) : Failure := ⟨[], .stated text⟩

def outside : Failure := ⟨[], .outside none⟩

def outsideSaying (words : String) : Failure := ⟨[], .outside (some words)⟩

/-- The failure in the course of an attempt. -/
def during (attempt : String) (failure : Failure) : Failure :=
  { failure with attempts := attempt :: failure.attempts }

def ofIndex (e : VectorIndex.Error) : Failure := ⟨[], .index e⟩

/-- What a database fails with that lacks a table; it says so twice. -/
def missingTable (name : String) : Failure :=
  let words := "(code: 1) no such table: " ++ name
  outsideSaying ("error returned from database: " ++ words ++ ": " ++ words)

def isEndless (failure : Failure) : Bool := failure.cause == .endless

/-- The words of the service itself for a cause. -/
def Cause.ownText? : Cause → Option String
  | .stated text => some text
  | .index e => some e.message
  | .outside _ | .endless => none

def Cause.text? : Cause → Option String
  | .outside words => words
  | cause => cause.ownText?

/-- The chain of attempts and the cause. -/
def text (failure : Failure) : String :=
  ": ".intercalate (failure.attempts ++ failure.cause.text?.toList)

/-- The chain of attempts and the cause, without words from outside. -/
def outline (failure : Failure) : String :=
  ": ".intercalate (failure.attempts ++ failure.cause.ownText?.toList)

end Failure

/-- A step of the service. -/
abbrev Action (σ α : Type) := Step Failure σ α

/-- Say what is attempted, should the step fail. -/
def Action.during {σ α : Type} (attempt : String) (step : Action σ α) : Action σ α :=
  step.mapError (Failure.during attempt)

end SourceIndex
