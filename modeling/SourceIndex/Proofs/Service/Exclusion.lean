import SourceIndex.Proofs.Service.Calls

/-! Calls on one key that run side by side, each of their operations on the job store being one step.
Claims alone keep runs apart. A deletion looks at the record only before it removes the chunks, so it may
take away the record of a run that was claimed meanwhile; then nothing refuses the next claim. Such
removals are all that stands against the exclusion of runs. -/

namespace SourceIndex.Service
open Job

/-- The job store, and the calls in the order in which they came. -/
structure System where
  jobs : Memory
  calls : List Call
  deriving DecidableEq, Repr

inductive Label where
  /-- A call comes that wants to delete, or else to index. -/
  | arrive (deletes : Bool)
  | act (call : Nat) (act : Act)
  deriving DecidableEq, Repr

namespace System

/-- The number of runs that are active. -/
def active (s : System) : Nat := s.calls.countP Call.isActive

/-- The system after a step, if the step can be taken. -/
def step (key : Key) (s : System) : Label → Option System
  | .arrive deletes => some { s with calls := s.calls ++ [if deletes then .checking else .starting] }
  | .act i act => do
    let call ← s.calls[i]?
    let (call, jobs) ← act.apply key call s.jobs
    some ⟨jobs, s.calls.set i call⟩

/-- The system after some steps, if they can be taken. -/
def run (key : Key) : List Label → System → Option System
  | [], s => some s
  | label :: rest, s => (s.step key label).bind (run key rest)

/-- Something holds now and after every one of the steps that can be taken. -/
def Along (key : Key) (P : System → Prop) : List Label → System → Prop
  | [], s => P s
  | label :: rest, s => P s ∧ ∀ s', s.step key label = some s' → Along key P rest s'

/-- No record is removed while a run is active. -/
def Undisturbed (key : Key) : List Label → System → Prop
  | [], _ => True
  | label :: rest, s => ∀ s', s.step key label = some s' →
      (∀ i, label = .act i .remove → s.active = 0) ∧ Undisturbed key rest s'

/-- At most one run is active, and so it is after one more request. -/
def Exclusive (key : Key) (s : System) : Prop :=
  s.active ≤ 1 ∧ ∀ staleBefore now s',
    s.run key [.arrive false, .act s.calls.length (.claim staleBefore now)] = some s' → s'.active ≤ 1

/-! ### One step -/

variable {key : Key} {s s' : System}

theorem step_act_iff {i : Nat} {act : Act} :
    s.step key (.act i act) = some s' ↔ ∃ call call' jobs, s.calls[i]? = some call ∧
      act.apply key call s.jobs = some (call', jobs) ∧ s' = ⟨jobs, s.calls.set i call'⟩ := by
  constructor
  · intro h
    obtain ⟨call, hcall, h⟩ := Option.bind_eq_some_iff.mp h
    obtain ⟨⟨call', jobs⟩, happly, h⟩ := Option.bind_eq_some_iff.mp h
    cases h
    exact ⟨call, call', jobs, hcall, happly, rfl⟩
  · rintro ⟨call, call', jobs, hcall, happly, rfl⟩
    rw [step, hcall, Option.bind_eq_bind, Option.bind_some, happly]
    rfl

/-- A call that comes is not active. -/
theorem active_arrive {deletes : Bool} (h : s.step key (.arrive deletes) = some s') :
    s'.active = s.active ∧ s'.jobs = s.jobs := by
  cases h
  refine ⟨?_, rfl⟩
  rw [active, active, List.countP_append]
  cases deletes <;> rfl

/-- When one call goes on, the others count as before. -/
theorem active_set {i : Nat} {call : Call} (hcall : s.calls[i]? = some call) (call' : Call)
    (jobs : Memory) :
    active ⟨jobs, s.calls.set i call'⟩ + call.isActive.toNat = s.active + call'.isActive.toNat := by
  obtain ⟨hi, hget⟩ := List.getElem?_eq_some_iff.mp hcall
  have hle := List.boole_getElem_le_countP (p := Call.isActive) hi
  have hnat : ∀ b : Bool, (if b = true then 1 else 0) = b.toNat := by decide
  rw [active, active, List.countP_set hi]
  rw [hget, hnat] at hle ⊢
  rw [hnat]
  omega

/-- At most one run is active, and the record is its own. -/
structure Guarded (key : Key) (s : System) : Prop where
  atMostOne : s.active ≤ 1
  held : s.active = 1 → Held key s.jobs

theorem guarded_init (jobs : Memory) : Guarded key ⟨jobs, []⟩ := ⟨Nat.zero_le 1, nofun⟩

/-- A step keeps the record to the run that is active, unless it removes the record of one. -/
theorem guarded_step {label : Label} (hs : Guarded key s) (hstep : s.step key label = some s')
    (hremove : ∀ i, label = .act i .remove → s.active = 0) : Guarded key s' := by
  cases label with
  | arrive deletes =>
      obtain ⟨hactive, hjobs⟩ := active_arrive hstep
      exact ⟨hactive ▸ hs.atMostOne, fun h => hjobs ▸ hs.held (hactive ▸ h)⟩
  | act i act =>
      obtain ⟨call, call', jobs, hcall, happly, rfl⟩ := step_act_iff.mp hstep
      have hcount := active_set hcall call' jobs
      have hone := hs.atMostOne
      rcases Act.apply_cases happly with ⟨hwas, hkeeps⟩ | ⟨hwas, his, hjobs⟩ | ⟨hwas, his, hfree, hheld⟩
      · rw [hwas, Bool.toNat_true] at hcount
        cases his : call'.isActive with
        | false =>
            rw [his, Bool.toNat_false] at hcount
            exact ⟨by omega, fun h => by omega⟩
        | true =>
            rw [his, Bool.toNat_true] at hcount
            exact ⟨by omega, fun h => hkeeps his (hs.held (by omega))⟩
      · rw [hwas, his] at hcount
        refine ⟨by omega, fun h => ?_⟩
        rcases hjobs with rfl | rfl
        · have := hremove i rfl
          omega
        · exact hs.held (by omega)
      · rw [hwas, his, Bool.toNat_false, Bool.toNat_true] at hcount
        have hnone : s.active ≠ 1 := fun h => hfree (hs.held h)
        exact ⟨by omega, fun _ => hheld⟩

/-- The removal of the record leaves nothing that refuses a claim. -/
theorem removed_of_step {i : Nat} (h : s.step key (.act i .remove) = some s') :
    s'.active = s.active ∧ s'.jobs.get? key = none := by
  obtain ⟨call, call', jobs, hcall, happly, rfl⟩ := step_act_iff.mp h
  obtain ⟨rfl, rfl, rfl⟩ := apply_remove s.jobs happly
  refine ⟨active_set hcall .left _, ?_⟩
  rw [Memory.outcome_delete]
  exact findBy_removeBy_self Job.key key s.jobs.jobs

/-! ### The exclusion of runs -/

theorem Along.now {P : System → Prop} {labels : List Label} (h : Along key P labels s) : P s := by
  cases labels with
  | nil => exact h
  | cons label rest => exact h.1

theorem Guarded.exclusive (hs : Guarded key s) : s.Exclusive key := by
  refine ⟨hs.atMostOne, fun staleBefore now s' hrun => ?_⟩
  obtain ⟨s₁, harrive, hrun⟩ := Option.bind_eq_some_iff.mp hrun
  obtain ⟨s₂, hclaim, hrun⟩ := Option.bind_eq_some_iff.mp hrun
  cases hrun
  have hs₁ := guarded_step hs harrive fun i h => nomatch h
  exact (guarded_step hs₁ hclaim fun i h => nomatch h).atMostOne

/-- Without a record one more request claims the key. -/
theorem not_exclusive_of_removed (hactive : s.active ≠ 0) (hnone : s.jobs.get? key = none) :
    ¬s.Exclusive key := by
  rintro ⟨-, hmore⟩
  let arrived : System := ⟨s.jobs, s.calls ++ [.starting]⟩
  have hcall : arrived.calls[s.calls.length]? = some .starting := List.getElem?_concat_length
  have harrive : s.step key (.arrive false) = some arrived := rfl
  have harrived := (active_arrive harrive).1
  obtain ⟨jobs, hclaim⟩ := apply_claim_of_none 0 s.jobs 0 hnone
  have hcount : active ⟨jobs, arrived.calls.set s.calls.length .claimed⟩ + 0 = arrived.active + 1 :=
    active_set hcall .claimed jobs
  have hstep := step_act_iff.mpr ⟨_, _, _, hcall, hclaim, rfl⟩
  have hrun : s.run key [.arrive false, .act s.calls.length (.claim 0 0)] =
      some ⟨jobs, arrived.calls.set s.calls.length .claimed⟩ :=
    Option.bind_eq_some_iff.mpr ⟨arrived, harrive, Option.bind_eq_some_iff.mpr ⟨_, hstep, rfl⟩⟩
  have hone := hmore 0 0 _ hrun
  omega

/-- Runs exclude each other along an interleaving of calls exactly if in none of its steps the record is
removed while a run is active. -/
theorem exclusive_iff_undisturbed (key : Key) (jobs : Memory) (labels : List Label) :
    Along key (Exclusive key) labels ⟨jobs, []⟩ ↔ Undisturbed key labels ⟨jobs, []⟩ := by
  suffices ∀ s : System, Guarded key s →
      (Along key (Exclusive key) labels s ↔ Undisturbed key labels s) from
    this ⟨jobs, []⟩ (guarded_init jobs)
  induction labels with
  | nil => exact fun s hs => iff_of_true hs.exclusive trivial
  | cons label rest ih =>
      intro s hs
      constructor
      · rintro ⟨-, hrest⟩ s' hstep
        have hundisturbed : ∀ i, label = .act i .remove → s.active = 0 := by
          rintro i rfl
          obtain ⟨hactive, hnone⟩ := removed_of_step hstep
          refine Decidable.byContradiction fun hne => ?_
          exact not_exclusive_of_removed (hactive ▸ hne) hnone (hrest s' hstep).now
        exact ⟨hundisturbed, (ih s' (guarded_step hs hstep hundisturbed)).mp (hrest s' hstep)⟩
      · intro h
        refine ⟨hs.exclusive, fun s' hstep => ?_⟩
        obtain ⟨hundisturbed, hrest⟩ := h s' hstep
        exact (ih s' (guarded_step hs hstep hundisturbed)).mpr hrest

/-- A deletion that looked at the record of a run that had ended removes that of the next run, and a
third run is claimed beside it. -/
theorem two_active_after_removal :
    (run ⟨"u1", "acme/app"⟩
      [.arrive false, .act 0 (.claim 0 1), .act 0 (.startRun 2),
        .act 0 (.complete (finished ⟨3, 0⟩) 3),
        .arrive true, .act 1 (.check 0),
        .arrive false, .act 2 (.claim 0 4),
        .act 1 .remove,
        .arrive false, .act 3 (.claim 0 5)] ⟨.empty, []⟩).map
      (fun s => (s.active, s.calls)) = some (2, [.ended, .left, .claimed, .claimed]) := by
  decide +kernel

end System
end SourceIndex.Service
