import SourceIndex.Proofs.Step
import SourceIndex.VectorIndex

/-! The calls that an index answers. An index can be observed: it then answers as before and keeps every
call with its answer, in order. What is proved here of a step on an observed index is that observing changes
neither the result nor the state that it leaves, and what the calls of the step have to do with its result. -/

namespace SourceIndex.VectorIndex
open Step

/-- A call of an index, with what it answered. -/
inductive Exchange where
  | upsert (records : List Record) (answer : Except Error Unit)
  | query (request : Query) (answer : Except Error (List Match))
  | delete (ids : List String) (answer : Except Error Nat)
  | range (request : Range) (answer : Except Error Page)

namespace Exchange

/-- The error of a call that failed. -/
def error? : Exchange → Option Error
  | .upsert _ (.error e) | .query _ (.error e) | .delete _ (.error e) | .range _ (.error e) => some e
  | _ => none

/-- How many records the index says the call removed. -/
def removed : Exchange → Nat
  | .delete _ (.ok count) => count
  | _ => 0

theorem removed_of_failed {x : Exchange} (h : x.error? ≠ none) : x.removed = 0 := by
  cases x with
  | delete ids answer =>
      cases answer with
      | ok count => exact absurd rfl h
      | error e => rfl
  | upsert _ _ | query _ _ | range _ _ => rfl

end Exchange

/-- How many records some calls removed together. -/
def removedIn : List Exchange → Nat
  | [] => 0
  | x :: made => x.removed + removedIn made

@[simp] theorem removedIn_nil : removedIn [] = 0 := rfl

@[simp] theorem removedIn_cons (x : Exchange) (made : List Exchange) :
    removedIn (x :: made) = x.removed + removedIn made := rfl

@[simp] theorem removedIn_append (made later : List Exchange) :
    removedIn (made ++ later) = removedIn made + removedIn later := by
  induction made with
  | nil => simp
  | cons x made ih => simp [ih, Nat.add_assoc]

theorem removedIn_eq_zero {made : List Exchange} (h : ∀ x ∈ made, x.removed = 0) : removedIn made = 0 := by
  induction made with
  | nil => rfl
  | cons x made ih =>
      rw [removedIn_cons, h x List.mem_cons_self, ih fun y hy => h y (List.mem_cons_of_mem x hy)]

/-- No call before the end failed, and the last one did exactly if the result is an error, which is then its
error. -/
def Stops {α : Type} : Except Error α → List Exchange → Prop
  | .ok _, made => ∀ x ∈ made, x.error? = none
  | .error e, made => ∃ before x, made = before ++ [x] ∧ (∀ y ∈ before, y.error? = none) ∧ x.error? = some e

theorem Stops.append {α : Type} {result : Except Error α} {made later : List Exchange}
    (hmade : ∀ x ∈ made, x.error? = none) (h : Stops result later) : Stops result (made ++ later) := by
  cases result with
  | ok a =>
      intro x hx
      rcases List.mem_append.mp hx with hx | hx
      · exact hmade x hx
      · exact h x hx
  | error e =>
      obtain ⟨before, x, rfl, hbefore, hx⟩ := h
      refine ⟨made ++ before, x, (List.append_assoc made before [x]).symm, fun y hy => ?_, hx⟩
      rcases List.mem_append.mp hy with hy | hy
      · exact hmade y hy
      · exact hbefore y hy

theorem Stops.cons {α : Type} {result : Except Error α} {x : Exchange} {made : List Exchange}
    (hx : x.error? = none) (h : Stops result made) : Stops result (x :: made) := by
  have hsingle : ∀ y ∈ [x], y.error? = none := by simpa using hx
  exact h.append hsingle

/-- A call that fails is where a step stops. -/
theorem stops_of_error {α : Type} {e : Error} {x : Exchange} (h : x.error? = some e) :
    Stops (.error e : Except Error α) [x] := ⟨[], x, rfl, fun _ hy => absurd hy List.not_mem_nil, h⟩

/-- Whether a step stops hangs on its value only as far as there is one. -/
theorem Stops.map {α β : Type} {result : Except Error α} {made : List Exchange} (f : α → β)
    (h : Stops result made) : Stops (result.map f) made := by
  cases result <;> exact h

/-- The state of an index, and the calls that it has answered. -/
structure Observed (σ : Type) where
  state : σ
  /-- In order. -/
  exchanges : List Exchange

/-- The same call, which is kept with its answer. -/
def Observed.call {σ α : Type} (step : Step Error σ α) (exchange : Except Error α → Exchange) :
    Step Error (Observed σ) α :=
  ExceptT.mk fun s =>
    let (answer, state) := step.run.run s.state
    (answer, ⟨state, s.exchanges ++ [exchange answer]⟩)

/-- The index with a record of its calls. -/
def observed {σ : Type} (index : VectorIndex σ) : VectorIndex (Observed σ) where
  upsert records := Observed.call (index.upsert records) (.upsert records)
  query request := Observed.call (index.query request) (.query request)
  delete ids := Observed.call (index.delete ids) (.delete ids)
  range request := Observed.call (index.range request) (.range request)

/-! ### Observed steps -/

section
variable {ε ε' σ α β : Type}

/-- The step on an observed index does what the step does on the index, and adds calls that are in the given
relation to its result. -/
def Makes (step : Step ε σ α) (seen : Step ε (Observed σ) α)
    (P : Except ε α → List Exchange → Prop) : Prop :=
  ∀ s before, ∃ made, P (outcome step s).1 made ∧
    outcome seen ⟨s, before⟩ = ((outcome step s).1, ⟨(outcome step s).2, before ++ made⟩)

theorem makes_call (step : Step Error σ α) (exchange : Except Error α → Exchange) :
    Makes step (Observed.call step exchange) fun answer made => made = [exchange answer] :=
  fun _ _ => ⟨_, rfl, rfl⟩

theorem makes_pure {a : α} {P : Except ε α → List Exchange → Prop} (h : P (.ok a) []) :
    Makes (σ := σ) (pure a) (pure a) P := fun s before => ⟨[], h, by simp⟩

theorem makes_throw {e : ε} {P : Except ε α → List Exchange → Prop} (h : P (.error e) []) :
    Makes (σ := σ) (throw e) (throw e) P := fun s before => ⟨[], h, by simp⟩

variable {step : Step ε σ α} {seen : Step ε (Observed σ) α} {P : Except ε α → List Exchange → Prop}

theorem Makes.mono {Q : Except ε α → List Exchange → Prop} (h : Makes step seen P)
    (himp : ∀ result made, P result made → Q result made) : Makes step seen Q := by
  intro s before
  obtain ⟨made, hmade, hseen⟩ := h s before
  exact ⟨made, himp _ _ hmade, hseen⟩

theorem Makes.bind {next : α → Step ε σ β} {seenNext : α → Step ε (Observed σ) β}
    {Q : α → Except ε β → List Exchange → Prop} {R : Except ε β → List Exchange → Prop}
    (hstep : Makes step seen P) (hnext : ∀ a, Makes (next a) (seenNext a) (Q a))
    (herror : ∀ e made, P (.error e) made → R (.error e) made)
    (hok : ∀ a made result later, P (.ok a) made → Q a result later → R result (made ++ later)) :
    Makes (step >>= next) (seen >>= seenNext) R := by
  intro s before
  obtain ⟨made, hmade, hseen⟩ := hstep s before
  rcases houtcome : outcome step s with ⟨e | a, s'⟩
  · rw [houtcome] at hmade hseen
    refine ⟨made, ?_, ?_⟩
    · rw [outcome_bind_of_error houtcome]
      exact herror e made hmade
    · rw [outcome_bind_of_error hseen, outcome_bind_of_error houtcome]
  · rw [houtcome] at hmade hseen
    obtain ⟨later, hlater, hseenLater⟩ := hnext a s' (before ++ made)
    refine ⟨made ++ later, ?_, ?_⟩
    · rw [outcome_bind_of_ok houtcome]
      exact hok a made _ later hmade hlater
    · rw [outcome_bind_of_ok hseen, outcome_bind_of_ok houtcome, hseenLater, List.append_assoc]

theorem Makes.map (f : α → β) (h : Makes step seen P) :
    Makes (f <$> step) (f <$> seen) fun result made =>
      ∃ value, P value made ∧ result = value.map f := by
  intro s before
  obtain ⟨made, hmade, hseen⟩ := h s before
  refine ⟨made, ⟨_, hmade, by rw [outcome_map]⟩, ?_⟩
  rw [outcome_map, outcome_map, hseen]

theorem Makes.mapError (f : ε → ε') (h : Makes step seen P) :
    Makes (step.mapError f) (seen.mapError f) fun result made =>
      ∃ value, P value made ∧ result = value.mapError f := by
  intro s before
  obtain ⟨made, hmade, hseen⟩ := h s before
  refine ⟨made, ⟨_, hmade, rfl⟩, ?_⟩
  rw [outcome_mapError, outcome_mapError, hseen]

theorem Makes.attempt (h : Makes step seen P) :
    Makes (step.attempt : Step ε' σ (Except ε α)) seen.attempt fun result made =>
      ∃ value, P value made ∧ result = .ok value := by
  intro s before
  obtain ⟨made, hmade, hseen⟩ := h s before
  refine ⟨made, ⟨_, hmade, rfl⟩, ?_⟩
  rw [outcome_attempt, outcome_attempt, hseen]

end

end SourceIndex.VectorIndex
