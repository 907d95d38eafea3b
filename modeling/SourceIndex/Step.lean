/-!
Steps on a state that may fail. The state also changes when a step fails, so what was done before a
failure stays done.
-/

namespace SourceIndex

/-- A step on a state that may fail; the state also changes when it fails. -/
abbrev Step (ε σ α : Type) := ExceptT ε (StateM σ) α

/-- A step on a part of a larger state. -/
def Step.within {ε σ τ α : Type} (get : σ → τ) (set : τ → σ → σ) (step : Step ε τ α) :
    Step ε σ α :=
  ExceptT.mk fun state =>
    let (result, part) := step.run.run (get state)
    (result, set part state)

/-- The same step with its error seen as another. -/
def Step.mapError {ε ε' σ α : Type} (f : ε → ε') (step : Step ε σ α) : Step ε' σ α :=
  ExceptT.mk fun state =>
    let (result, state) := step.run.run state
    (result.mapError f, state)

/-- The outcome of a step as a value. -/
def Step.attempt {ε ε' σ α : Type} (step : Step ε σ α) : Step ε' σ (Except ε α) :=
  ExceptT.mk fun state =>
    let (result, state) := step.run.run state
    (.ok result, state)

end SourceIndex
