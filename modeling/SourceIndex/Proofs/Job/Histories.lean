import SourceIndex.Proofs.Job.Records

/-! Histories of a job store: what its operations answer one after the other, on whatever keys and whoever
asks for them. A claim that succeeds leaves the record of an active run. From then on every operation
keeps it one, written at the time of the last write to the key, unless it removes the record or ends the
run; and while it is one, a claim only succeeds that takes a later time than this for too old. -/

namespace SourceIndex
open Step

namespace Job

/-- One operation on a job store, with the time that it is told. -/
inductive Request where
  | claim (key : Key) (url : String) (staleBefore now : Int)
  | startRun (key : Key) (url : String) (now : Int)
  | update (key : Key) (update : Update) (now : Int)
  | get (key : Key)
  | list (user : String)
  | delete (key : Key)
  deriving DecidableEq, Repr

/-- What an operation gives back. -/
inductive Reply where
  | claimed (job : Option Job)
  | started (job : Job)
  | updated
  | found (job : Option Job)
  | listed (jobs : List Job)
  | deleted (wasThere : Bool)
  deriving DecidableEq, Repr

/-- An operation and what came of it. -/
structure Event where
  request : Request
  result : Except Failure Reply

end Job

namespace JobStore
open Job

variable {σ : Type}

def perform (store : JobStore σ) : Request → Action σ Reply
  | .claim key url staleBefore now => .claimed <$> store.claim key url staleBefore now
  | .startRun key url now => .started <$> store.startRun key url now
  | .update key update now => (fun _ => .updated) <$> store.update key update now
  | .get key => .found <$> store.get key
  | .list user => .listed <$> store.list user
  | .delete key => .deleted <$> store.delete key

/-- The history of some operations, one after the other. -/
def trace (store : JobStore σ) : List Request → σ → List Event
  | [], _ => []
  | request :: rest, s =>
    ⟨request, (outcome (store.perform request) s).1⟩ ::
      store.trace rest (outcome (store.perform request) s).2

/-- A history that goes on with an event goes on with the operation of that event. -/
theorem trace_eq_cons {store : JobStore σ} {requests : List Request} {s : σ} {event : Event}
    {rest : List Event} (h : store.trace requests s = event :: rest) :
    event.result = (outcome (store.perform event.request) s).1 ∧
      ∃ requests', rest = store.trace requests' (outcome (store.perform event.request) s).2 := by
  cases requests with
  | nil => cases h
  | cons request requests =>
      cases h
      exact ⟨rfl, requests, rfl⟩

/-- The end of a history is the history of what the beginning left. -/
theorem trace_eq_append {store : JobStore σ} {before rest : List Event} :
    ∀ {requests : List Request} {s : σ}, store.trace requests s = before ++ rest →
      ∃ requests' s', rest = store.trace requests' s' := by
  induction before with
  | nil => exact fun {requests s} h => ⟨requests, s, h.symm⟩
  | cons event before ih =>
      intro requests s h
      obtain ⟨-, requests', hrest⟩ := trace_eq_cons h
      exact ih hrest.symm

end JobStore

namespace Job

/-! ### Writes and releases -/

/-- The key whose record an operation may change. -/
def Request.target? : Request → Option Key
  | .claim key _ _ _ | .startRun key _ _ | .update key _ _ | .delete key => some key
  | .get _ | .list _ => none

theorem Request.ne_of_target? {request : Request} {key other : Key} (h : request.target? ≠ some key)
    (hother : request.target? = some other) : key ≠ other := by
  rintro rfl
  exact h hother

/-- When an event wrote the record of a key, if it did. -/
def Event.writtenAt? (key : Key) : Event → Option Int
  | ⟨.claim other _ _ now, .ok (.claimed (some _))⟩
  | ⟨.startRun other _ now, .ok _⟩
  | ⟨.update other _ now, .ok _⟩ => if other = key then some now else none
  | _ => none

/-- When the record of a key was last written, if it was. -/
def lastWrite? (key : Key) (events : List Event) : Option Int :=
  (events.filterMap (Event.writtenAt? key)).getLast?

/-- The record of a key was removed, or its run ended. -/
inductive Event.Releases (key : Key) : Event → Prop where
  | removed : Releases key ⟨.delete key, .ok (.deleted true)⟩
  | ended {update : Update} {status : Status} {now : Int} (hstatus : update.status = some status)
      (hterminal : status.isTerminal = true) : Releases key ⟨.update key update now, .ok .updated⟩

@[simp] theorem writtenAt?_claim (key : Key) (url : String) (staleBefore now : Int) (job : Job) :
    Event.writtenAt? key ⟨.claim key url staleBefore now, .ok (.claimed (some job))⟩ = some now :=
  if_pos rfl

@[simp] theorem writtenAt?_startRun (key : Key) (url : String) (now : Int) (reply : Reply) :
    Event.writtenAt? key ⟨.startRun key url now, .ok reply⟩ = some now := if_pos rfl

@[simp] theorem writtenAt?_update (key : Key) (update : Update) (now : Int) (reply : Reply) :
    Event.writtenAt? key ⟨.update key update now, .ok reply⟩ = some now := if_pos rfl

theorem writtenAt?_of_ne {key : Key} {request : Request} (h : request.target? ≠ some key)
    (result : Except Failure Reply) : Event.writtenAt? key ⟨request, result⟩ = none := by
  rw [Event.writtenAt?.eq_def]
  split
  · next heq =>
      cases heq
      exact if_neg fun hkey => h (congrArg some hkey)
  · next heq =>
      cases heq
      exact if_neg fun hkey => h (congrArg some hkey)
  · next heq =>
      cases heq
      exact if_neg fun hkey => h (congrArg some hkey)
  · rfl

theorem lastWrite?_cons_getD (key : Key) (event : Event) (events : List Event) (t : Int) :
    (lastWrite? key (event :: events)).getD t =
      (lastWrite? key events).getD ((event.writtenAt? key).getD t) := by
  rw [lastWrite?, lastWrite?, List.filterMap_cons]
  cases event.writtenAt? key with
  | none => rfl
  | some now =>
      simp only [List.getLast?_cons, Option.getD_some]

/-- After a write the last write is that one or a later one. -/
theorem lastWrite?_append_cons {key : Key} {event : Event} {now : Int}
    (h : event.writtenAt? key = some now) (before after : List Event) :
    lastWrite? key (before ++ event :: after) = some ((lastWrite? key after).getD now) := by
  rw [lastWrite?, List.filterMap_append, List.filterMap_cons, h, List.getLast?_append,
    List.getLast?_cons, Option.some_or]
  rfl

end Job

namespace JobStore
open Job

variable {σ : Type} {store : JobStore σ} {key : Key}

/-- A store guards the record of a key. A claim makes it held since now, and what is held is only claimed
with a later bound. Other operations on the key do not fail: the start of a run and an update that does
not end one keep it held since now, and operations on other keys keep it held as it was. -/
structure Guards (store : JobStore σ) (key : Key) (held : Int → σ → Prop) : Prop where
  claimed : ∀ {url staleBefore now job s s'},
    outcome (store.claim key url staleBefore now) s = (.ok (some job), s') → held now s'
  claim : ∀ {s t} (url : String) (staleBefore now : Int), held t s →
    outcome (store.claim key url staleBefore now) s = (.ok none, s) ∨
      t < staleBefore ∧ ∃ job s', outcome (store.claim key url staleBefore now) s = (.ok (some job), s')
  startRun : ∀ {s t} (url : String) (now : Int), held t s →
    ∃ job s', outcome (store.startRun key url now) s = (.ok job, s') ∧ held now s'
  update : ∀ {s t} (update : Update) (now : Int), held t s →
    ∃ s', outcome (store.update key update now) s = (.ok (), s') ∧
      ((∀ status, update.status = some status → status.isTerminal = false) → held now s')
  delete : ∀ {s t}, held t s → ∃ s', outcome (store.delete key) s = (.ok true, s')
  other : ∀ {request s t}, request.target? ≠ some key → held t s →
    held t (outcome (store.perform request) s).2

/-- A held record stays held, since now if the operation wrote it, unless the operation releases it. -/
theorem Guards.kept {held : Int → σ → Prop} (hguards : store.Guards key held) {request : Request} {s : σ}
    {t : Int} (hheld : held t s)
    (hrelease : ¬Event.Releases key ⟨request, (outcome (store.perform request) s).1⟩) :
    held ((Event.writtenAt? key ⟨request, (outcome (store.perform request) s).1⟩).getD t)
      (outcome (store.perform request) s).2 := by
  by_cases htarget : request.target? = some key
  · cases request with
    | get other => cases htarget
    | list user => cases htarget
    | claim other url staleBefore now =>
        cases htarget
        rcases hguards.claim url staleBefore now hheld with hrefused | ⟨-, job, s', hclaim⟩
        · rw [perform, outcome_map, hrefused]
          exact hheld
        · rw [perform, outcome_map, hclaim, map_ok, writtenAt?_claim]
          exact hguards.claimed hclaim
    | startRun other url now =>
        cases htarget
        obtain ⟨job, s', hstart, hnext⟩ := hguards.startRun url now hheld
        rw [perform, outcome_map, hstart, map_ok, writtenAt?_startRun]
        exact hnext
    | update other update now =>
        cases htarget
        obtain ⟨s', hupdate, hnext⟩ := hguards.update update now hheld
        rw [perform, outcome_map, hupdate, map_ok] at hrelease ⊢
        rw [writtenAt?_update]
        apply hnext
        intro status hstatus
        rw [← Bool.not_eq_true]
        exact fun hterminal => hrelease (.ended hstatus hterminal)
    | delete other =>
        cases htarget
        obtain ⟨s', hdelete⟩ := hguards.delete hheld
        rw [perform, outcome_map, hdelete, map_ok] at hrelease
        exact absurd .removed hrelease
  · rw [writtenAt?_of_ne htarget, Option.getD_none]
    exact hguards.other htarget hheld

theorem Guards.stale {held : Int → σ → Prop} (hguards : store.Guards key held) {s s' : σ} {t : Int}
    {url : String} {staleBefore now : Int} {job : Job} (hheld : held t s)
    (h : outcome (store.claim key url staleBefore now) s = (.ok (some job), s')) : t < staleBefore := by
  rcases hguards.claim url staleBefore now hheld with hrefused | ⟨hstale, -⟩
  · rw [hrefused] at h
    cases h
  · exact hstale

theorem outcome_claim_of_perform {url : String} {staleBefore now : Int} {job : Job} {s : σ}
    (h : .ok (.claimed (some job)) =
      (outcome (store.perform (.claim key url staleBefore now)) s).1) :
    outcome (store.claim key url staleBefore now) s =
      (.ok (some job), (outcome (store.perform (.claim key url staleBefore now)) s).2) := by
  rw [perform, outcome_map] at h ⊢
  rcases hclaim : outcome (store.claim key url staleBefore now) s with ⟨failure | claimed, s'⟩
  · rw [hclaim] at h
    cases h
  · rw [hclaim] at h
    cases h
    rfl

/-- A record stays held along a history in which nothing releases it. -/
theorem Guards.held_along {held : Int → σ → Prop} (hguards : store.Guards key held)
    {between rest : List Event} :
    ∀ {requests : List Request} {s : σ} {t : Int}, held t s →
      store.trace requests s = between ++ rest → (∀ event ∈ between, ¬event.Releases key) →
      ∃ requests' s', rest = store.trace requests' s' ∧ held ((lastWrite? key between).getD t) s' := by
  induction between with
  | nil => exact fun {requests s t} hheld h _ => ⟨requests, s, h.symm, hheld⟩
  | cons event between ih =>
      intro requests s t hheld h hnone
      obtain ⟨hresult, requests', hrest⟩ := trace_eq_cons h
      have hevent : event = ⟨event.request, (outcome (store.perform event.request) s).1⟩ := by
        rw [← hresult]
      have hrelease := hnone event List.mem_cons_self
      rw [hevent] at hrelease
      have hnext := hguards.kept hheld hrelease
      rw [← hevent] at hnext
      rw [lastWrite?_cons_getD]
      exact ih hnext hrest.symm fun event hmem => hnone event (List.mem_cons_of_mem _ hmem)

/-- Of two claims of a key that succeed, the second one comes after the run of the first one was ended or
its record was removed, or it takes the last write to the key for too old. A claim that is refused leaves
everything as it is. -/
structure ClaimsExclusive (store : JobStore σ) : Prop where
  released : ∀ (s : σ) (requests : List Request) {before between after : List Event} {key : Key}
    {url url' : String} {staleBefore staleBefore' now now' : Int} {job job' : Job},
    store.trace requests s =
      before ++ (⟨.claim key url staleBefore now, .ok (.claimed (some job))⟩ ::
        (between ++ (⟨.claim key url' staleBefore' now', .ok (.claimed (some job'))⟩ :: after))) →
    (∃ event ∈ between, event.Releases key) ∨
      ∃ t, lastWrite? key (before ++
        (⟨.claim key url staleBefore now, .ok (.claimed (some job))⟩ :: between)) = some t ∧
        t < staleBefore'
  refused : ∀ {s s' : σ} {key : Key} {url : String} {staleBefore now : Int},
    outcome (store.claim key url staleBefore now) s = (.ok none, s') → s' = s

theorem claimsExclusive_of_guards {held : Key → Int → σ → Prop}
    (hguards : ∀ key, store.Guards key (held key))
    (hrefused : ∀ {s s' : σ} {key : Key} {url : String} {staleBefore now : Int},
      outcome (store.claim key url staleBefore now) s = (.ok none, s') → s' = s) :
    store.ClaimsExclusive where
  released s requests before between after key url url' staleBefore staleBefore' now now' job job' h := by
    by_cases hrelease : ∃ event ∈ between, event.Releases key
    · exact Or.inl hrelease
    · have hnone : ∀ event ∈ between, ¬event.Releases key := by
        simpa only [not_exists, not_and] using hrelease
      obtain ⟨requests₁, s₁, hfirst⟩ := trace_eq_append h
      obtain ⟨hclaim, requests₂, hlater⟩ := trace_eq_cons hfirst.symm
      have hheld := (hguards key).claimed (outcome_claim_of_perform hclaim)
      obtain ⟨requests₃, s₃, hsecond, hheld₃⟩ := (hguards key).held_along hheld hlater.symm hnone
      obtain ⟨hclaim₃, -⟩ := trace_eq_cons hsecond.symm
      refine Or.inr ⟨(lastWrite? key between).getD now, ?_, ?_⟩
      · exact lastWrite?_append_cons (writtenAt?_claim key url staleBefore now job) before between
      · exact (hguards key).stale hheld₃ (outcome_claim_of_perform hclaim₃)
  refused := hrefused

end JobStore
end SourceIndex
