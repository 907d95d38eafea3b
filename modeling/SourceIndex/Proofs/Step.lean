import SourceIndex.Failure

/-! What steps do to their state. The outcome of a step is its result together with the state that it
leaves; every way of joining steps has an equation for it. A joined step that gives a value can be taken
apart again into the outcomes of its parts. -/

namespace SourceIndex.Step

variable {ε ε' σ τ α β : Type}

/-- The result of a step and the state that it leaves. -/
def outcome (step : Step ε σ α) (state : σ) : Except ε α × σ := step.run.run state

/-! ### Equations -/

@[simp] theorem outcome_pure (a : α) (s : σ) : outcome (pure a : Step ε σ α) s = (.ok a, s) := rfl

@[simp] theorem outcome_throw (e : ε) (s : σ) :
    outcome (throw e : Step ε σ α) s = (.error e, s) := rfl

@[simp] theorem outcome_get (s : σ) : outcome (get : Step ε σ σ) s = (.ok s, s) := rfl

@[simp] theorem outcome_set (s' s : σ) : outcome (set s' : Step ε σ PUnit) s = (.ok ⟨⟩, s') := rfl

@[simp] theorem outcome_modify (f : σ → σ) (s : σ) :
    outcome (modify f : Step ε σ PUnit) s = (.ok ⟨⟩, f s) := rfl

@[simp] theorem outcome_liftExcept (result : Except ε α) (s : σ) :
    outcome (liftExcept result : Step ε σ α) s = (result, s) := by
  cases result <;> rfl

theorem outcome_bind (step : Step ε σ α) (next : α → Step ε σ β) (s : σ) :
    outcome (step >>= next) s =
      match outcome step s with
      | (.ok a, s') => outcome (next a) s'
      | (.error e, s') => (.error e, s') := by
  rcases h : outcome step s with ⟨result, s'⟩
  change (ExceptT.bind step next).run.run s = _
  have hrun : step s = (result, s') := h
  cases result <;> simp only [ExceptT.bind, ExceptT.mk, ExceptT.run, StateT.run, bind, StateT.bind,
    hrun, ExceptT.bindCont] <;> rfl

@[simp] theorem map_ok (f : α → β) (a : α) : (Except.ok a : Except ε α).map f = .ok (f a) := rfl

@[simp] theorem map_error (f : α → β) (e : ε) :
    (Except.error e : Except ε α).map f = .error e := rfl

@[simp] theorem mapError_ok (f : ε → ε') (a : α) :
    (Except.ok a : Except ε α).mapError f = .ok a := rfl

@[simp] theorem mapError_error (f : ε → ε') (e : ε) :
    (Except.error e : Except ε α).mapError f = .error (f e) := rfl

theorem ok_of_toOption {result : Except ε α} {a : α} (h : result.toOption = some a) : result = .ok a := by
  cases result with
  | error e => cases h
  | ok b => rw [Option.some.inj h]

theorem ok_bind (a : α) (next : α → Except ε β) : (Except.ok a : Except ε α) >>= next = next a := rfl

/-- Parts none of which fails give all their values. -/
theorem mapM_ok {f : α → Except ε β} {g : α → β} {items : List α} (h : ∀ a ∈ items, f a = .ok (g a)) :
    items.mapM f = .ok (items.map g) := by
  induction items with
  | nil => rfl
  | cons a rest ih =>
      rw [List.mapM_cons, h a List.mem_cons_self, ih fun b hb => h b (List.mem_cons_of_mem a hb)]
      rfl

@[simp] theorem outcome_map (f : α → β) (step : Step ε σ α) (s : σ) :
    outcome (f <$> step) s = ((outcome step s).1.map f, (outcome step s).2) := by
  rw [← bind_pure_comp, outcome_bind]
  rcases outcome step s with ⟨_ | _, s'⟩ <;> rfl

@[simp] theorem outcome_within (get : σ → τ) (set : τ → σ → σ) (step : Step ε τ α) (s : σ) :
    outcome (step.within get set) s =
      ((outcome step (get s)).1, set (outcome step (get s)).2 s) := rfl

@[simp] theorem outcome_mapError (f : ε → ε') (step : Step ε σ α) (s : σ) :
    outcome (step.mapError f) s = ((outcome step s).1.mapError f, (outcome step s).2) := rfl

@[simp] theorem outcome_attempt (step : Step ε σ α) (s : σ) :
    outcome (step.attempt : Step ε' σ (Except ε α)) s =
      (.ok (outcome step s).1, (outcome step s).2) := rfl

/-! ### Values -/

section Values

variable {step : Step ε σ α} {next : α → Step ε σ β} {s s' : σ} {a : α} {e : ε}

theorem outcome_bind_of_ok (h : outcome step s = (.ok a, s')) :
    outcome (step >>= next) s = outcome (next a) s' := by
  rw [outcome_bind, h]

theorem outcome_bind_of_error (h : outcome step s = (.error e, s')) :
    outcome (step >>= next) s = (.error e, s') := by
  rw [outcome_bind, h]

theorem outcome_mapError_of_ok {f : ε → ε'} (h : outcome step s = (.ok a, s')) :
    outcome (step.mapError f) s = (.ok a, s') := by
  rw [outcome_mapError, h, mapError_ok]

theorem outcome_mapError_of_error {f : ε → ε'} (h : outcome step s = (.error e, s')) :
    outcome (step.mapError f) s = (.error (f e), s') := by
  rw [outcome_mapError, h, mapError_error]

theorem outcome_during_of_ok {action : Action σ α} {attempt : String}
    (h : outcome action s = (.ok a, s')) : outcome (action.during attempt) s = (.ok a, s') :=
  outcome_mapError_of_ok h

theorem outcome_during_of_error {action : Action σ α} {attempt : String} {failure : Failure}
    (h : outcome action s = (.error failure, s')) :
    outcome (action.during attempt) s = (.error (failure.during attempt), s') :=
  outcome_mapError_of_error h

theorem outcome_of_toOption (h : (outcome step s).1.toOption = some a) :
    outcome step s = (.ok a, (outcome step s).2) := by
  exact Prod.ext (ok_of_toOption h) rfl

end Values

/-- A composed step that gives a value came through its first part. -/
theorem outcome_bind_ok {step : Step ε σ α} {next : α → Step ε σ β} {s s' : σ} {b : β}
    (h : outcome (step >>= next) s = (.ok b, s')) :
    ∃ a m, outcome step s = (.ok a, m) ∧ outcome (next a) m = (.ok b, s') := by
  rw [outcome_bind] at h
  rcases hs : outcome step s with ⟨_ | a, m⟩
  · rw [hs] at h
    simp at h
  · rw [hs] at h
    exact ⟨a, m, rfl, h⟩

/-- A step on a part that gives a value did so on the part alone. -/
theorem outcome_within_ok {get : σ → τ} {set : τ → σ → σ} {step : Step ε τ α} {s s' : σ} {a : α}
    (h : outcome (step.within get set) s = (.ok a, s')) :
    ∃ t, outcome step (get s) = (.ok a, t) ∧ s' = set t s := by
  rw [outcome_within, Prod.mk.injEq] at h
  exact ⟨(outcome step (get s)).2, Prod.ext h.1 rfl, h.2.symm⟩

/-- Seeing errors as others does not change what a value is. -/
theorem outcome_mapError_ok {f : ε → ε'} {step : Step ε σ α} {s s' : σ} {a : α}
    (h : outcome (step.mapError f) s = (.ok a, s')) : outcome step s = (.ok a, s') := by
  rw [outcome_mapError, Prod.mk.injEq] at h
  rcases hs : outcome step s with ⟨_ | b, m⟩
  · rw [hs] at h
    cases h.1
  · rw [hs] at h
    simpa using h

end SourceIndex.Step
