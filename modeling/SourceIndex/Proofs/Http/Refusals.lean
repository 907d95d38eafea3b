import SourceIndex.Http
import SourceIndex.Proofs.Service.Deletion
import SourceIndex.Proofs.VectorIndex.Removal

/-! What requests leave as it is. A handler reads the request and looks at the records before it changes
anything, so that an answer that refuses the request comes while the records, the index and the waiting runs
are those from before; and what handles a request to read only reads. -/

namespace SourceIndex
open Step

/-! ### Searches -/

/-- No search changes what is observed of an index. -/
def VectorIndex.QueriesKeep {V O : Type} (index : VectorIndex V) (observe : V → O) : Prop :=
  ∀ request s, observe (outcome (index.query request) s).2 = observe s

theorem VectorIndex.Local.queriesKeep : Local.index.QueriesKeep Local.records := query_records

theorem VectorIndex.search_keeps {V O : Type} {index : VectorIndex V} {observe : V → O}
    (h : index.QueriesKeep observe) (text repo user : String) (topK : Nat) (s : V) :
    observe (outcome (search index text repo user topK) s).2 = observe s := by
  rw [search, outcome_bind, outcome_attempt, ← h (searchQuery text repo user topK) s]
  dsimp only
  split <;> rfl

/-! ### What a step leaves -/

/-- The two worlds have the same records of runs, the same waiting runs, and indexes of which the same is
observed. -/
structure World.Alike {J R V O : Type} (observe : V → O) (w w' : World J R V) : Prop where
  jobs : w'.jobs = w.jobs
  index : observe w'.index = observe w.index
  waiting : w'.waiting = w.waiting

namespace World.Alike
variable {J R V O : Type} {observe : V → O} {w₁ w₂ w₃ : World J R V}

theorem refl (observe : V → O) (w : World J R V) : w.Alike observe w := ⟨rfl, rfl, rfl⟩

theorem trans (h : w₁.Alike observe w₂) (h' : w₂.Alike observe w₃) : w₁.Alike observe w₃ :=
  ⟨h'.jobs.trans h.jobs, h'.index.trans h.index, h'.waiting.trans h.waiting⟩

/-- Worlds of which the whole index is observed have the same one. -/
theorem index_eq (h : w₁.Alike id w₂) : w₂.index = w₁.index := h.index

end World.Alike

namespace Http

section
variable {J R V O ε ε' α β : Type} {observe : V → O}

/-- Whatever the world, the step leaves one that is alike. -/
def Leaves (observe : V → O) (step : Step ε (World J R V) α) : Prop :=
  ∀ w : World J R V, w.Alike observe (outcome step w).2

theorem leaves_pure (a : α) : Leaves observe (pure a : Step ε (World J R V) α) := World.Alike.refl observe

theorem leaves_throw (e : ε) : Leaves observe (throw e : Step ε (World J R V) α) :=
  World.Alike.refl observe

theorem leaves_throw_bind (e : ε) (next : α → Step ε (World J R V) β) :
    Leaves observe (throw e >>= next) :=
  World.Alike.refl observe

theorem leaves_bind {step : Step ε (World J R V) α} {next : α → Step ε (World J R V) β}
    (hstep : Leaves observe step) (hnext : ∀ a, Leaves observe (next a)) :
    Leaves observe (step >>= next) := by
  intro w
  have hfirst := hstep w
  rcases hresult : outcome step w with ⟨e | a, w'⟩
  · rw [outcome_bind_of_error hresult]
    rwa [hresult] at hfirst
  · rw [outcome_bind_of_ok hresult]
    rw [hresult] at hfirst
    exact hfirst.trans (hnext a w')

theorem leaves_handled {step : Action (World J R V) α} (h : Leaves observe step) :
    Leaves observe (handled step) := h

/-! ### What a request says -/

theorem leaves_userOf (request : Request) : Leaves observe (userOf request : Handler J R V String) := by
  unfold userOf
  split
  · exact leaves_pure _
  · exact leaves_throw _

theorem leaves_valueOf (name : String) (request : Request) :
    Leaves observe (valueOf name request : Handler J R V (Option String)) := by
  unfold valueOf
  split
  · exact leaves_pure _
  · exact leaves_pure _
  · exact leaves_throw _

theorem leaves_numberOf (name : String) (request : Request) :
    Leaves observe (numberOf name request : Handler J R V (Option Nat)) := by
  refine leaves_bind (leaves_valueOf name request) fun value => ?_
  split
  · exact leaves_pure _
  · split
    · exact leaves_pure _
    · exact leaves_throw _

theorem leaves_soundRepo (repo : String) : Leaves observe (soundRepo repo : Handler J R V String) := by
  unfold soundRepo
  split
  · exact leaves_pure _
  · exact leaves_throw _

theorem leaves_requiredRepo (repo : Option String) :
    Leaves observe (requiredRepo repo : Handler J R V String) := by
  cases repo with
  | none => exact leaves_throw _
  | some repo => exact leaves_soundRepo repo

theorem leaves_bodyRepo (request : Request) : Leaves observe (bodyRepo request : Handler J R V String) := by
  unfold bodyRepo
  dsimp only
  split
  · exact leaves_throw_bind _ _
  · split
    · exact leaves_throw_bind _ _
    · split
      · exact leaves_pure _
      · exact leaves_throw _
      · exact leaves_throw _

end

/-! ### Requests to read -/

section
variable {J R V O : Type} {service : Service J R V} {observe : V → O}

theorem leaves_onJobs {α : Type} {step : Action J α} (h : ∀ s, (outcome step s).2 = s) :
    Leaves observe (World.onJobs step : Action (World J R V) α) := fun w =>
  ⟨h w.jobs, rfl, rfl⟩

theorem leaves_onIndex {α : Type} {step : Action V α} (h : ∀ s, observe (outcome step s).2 = observe s) :
    Leaves observe (World.onIndex step : Action (World J R V) α) := fun w =>
  ⟨rfl, h w.index, rfl⟩

theorem leaves_getIndex (hjobs : service.jobs.ReadsKeep) (request : Request) :
    Leaves observe (getIndex service request) := by
  refine leaves_bind (leaves_userOf request) fun user => ?_
  refine leaves_bind (leaves_valueOf "repo" request) fun repo => ?_
  cases repo with
  | none =>
      refine leaves_bind (leaves_handled (leaves_onJobs (hjobs.list user))) fun jobs => ?_
      exact leaves_pure _
  | some repo =>
      refine leaves_bind (leaves_soundRepo repo) fun repo => ?_
      refine leaves_bind (leaves_handled (leaves_onJobs (hjobs.get ⟨user, repo⟩))) fun job => ?_
      cases job with
      | none => exact leaves_throw _
      | some job => exact leaves_pure _

theorem leaves_getSearch (hindex : service.index.QueriesKeep observe) (request : Request) :
    Leaves observe (getSearch service request) := by
  refine leaves_bind (leaves_userOf request) fun user => ?_
  refine leaves_bind (leaves_valueOf "repo" request) fun repo => ?_
  refine leaves_bind (leaves_valueOf "q" request) fun text => ?_
  refine leaves_bind (leaves_numberOf "topK" request) fun topK => ?_
  refine leaves_bind (leaves_requiredRepo repo) fun repo => ?_
  dsimp only
  split
  · exact leaves_throw_bind _ _
  · refine leaves_bind (leaves_handled (leaves_onIndex ?_)) fun hits => leaves_pure _
    exact VectorIndex.search_keeps hindex _ _ _ _

end

/-! ### Refusals -/

/-- The request was refused: it asks for what cannot be done. -/
def Response.IsRefusal (response : Response) : Prop := 400 ≤ response.status ∧ response.status < 500

/-- The response that a handler ends with, early or not. -/
def responseOf : Except Response Response → Response
  | .ok response => response
  | .error response => response

section
variable {J R V : Type}

/-- Where the response is a refusal, the handler has changed nothing before. -/
def RefusesFirst (handler : Handler J R V Response) : Prop :=
  ∀ w : World J R V, (responseOf (outcome handler w).1).IsRefusal → w.Alike id (outcome handler w).2

theorem refusesFirst_of_leaves {handler : Handler J R V Response} (h : Leaves id handler) :
    RefusesFirst handler := fun w _ => h w

theorem refusesFirst_bind {α : Type} {step : Handler J R V α} {next : α → Handler J R V Response}
    (hstep : Leaves id step) (hnext : ∀ a, RefusesFirst (next a)) : RefusesFirst (step >>= next) := by
  intro w hrefusal
  have hfirst := hstep w
  rcases hresult : outcome step w with ⟨response | a, w'⟩
  · rw [outcome_bind_of_error hresult]
    rwa [hresult] at hfirst
  · rw [outcome_bind_of_ok hresult] at hrefusal ⊢
    rw [hresult] at hfirst
    exact hfirst.trans (hnext a w' hrefusal)

theorem not_isRefusal_of_lt {response : Response} (h : response.status < 400) : ¬response.IsRefusal :=
  fun hrefusal => Nat.not_lt.mpr hrefusal.1 h

theorem not_isRefusal_internal (failure : Failure) : ¬(Response.internal failure).IsRefusal :=
  fun hrefusal => Nat.lt_irrefl 500 hrefusal.2

/-- After a step of the service only its value decides: its failure is no refusal. -/
theorem refusesFirst_handled {α : Type} {step : Action (World J R V) α} {next : α → Handler J R V Response}
    (h : ∀ w a w', outcome step w = (.ok a, w') → (responseOf (outcome (next a) w').1).IsRefusal →
      w.Alike id (outcome (next a) w').2) : RefusesFirst (handled step >>= next) := by
  intro w hrefusal
  rcases hresult : outcome step w with ⟨failure | a, w'⟩
  · have herror : outcome (handled step) w = (.error (.internal failure), w') :=
      outcome_mapError_of_error hresult
    rw [outcome_bind_of_error herror] at hrefusal
    exact absurd hrefusal (not_isRefusal_internal failure)
  · have hok : outcome (handled step) w = (.ok a, w') := outcome_mapError_of_ok hresult
    rw [outcome_bind_of_ok hok] at hrefusal ⊢
    exact h w a w' hresult hrefusal

end

/-! ### Starts and deletions -/

section
variable {J R V : Type} {service : Service J R V} {key : Job.Key} {w w' : World J R V}

/-- A claim reads the clock twice and then asks the store. -/
theorem outcome_claim (key : Job.Key) (w : World J R V) :
    outcome (service.claim key) w =
      let result := outcome (service.jobs.claim key (Service.repoUrl key.repo)
        ((service.clock w.readings).seconds - Int.bmod service.staleAfter (Nat.pow 2 64))
        (service.clock (w.readings + 1)).seconds) w.jobs
      (result.1, { w with jobs := result.2, readings := w.readings + 2 }) := rfl

theorem alike_of_start_none (hjobs : service.jobs.ReadsKeep)
    (h : outcome (service.start key) w = (.ok none, w')) : w.Alike id w' := by
  obtain ⟨claimed, w₁, hclaim, hrest⟩ := outcome_bind_ok h
  cases claimed with
  | some job => cases hrest
  | none =>
      cases hrest
      rw [outcome_claim, Prod.mk.injEq] at hclaim
      obtain ⟨hnone, rfl⟩ := hclaim
      exact ⟨hjobs.refused (Prod.ext hnone rfl), rfl, rfl⟩

theorem alike_of_delete (hjobs : service.jobs.ReadsKeep) {deletion : Service.Deletion}
    (h : outcome (service.delete key) w = (.ok deletion, w'))
    (hkept : ∀ chunks, deletion ≠ .deleted chunks) : w.Alike id w' := by
  have hends := Service.delete_ends hjobs key w
  rw [h] at hends
  cases hends with
  | notFound => exact .refl id _
  | active => exact ⟨rfl, rfl, rfl⟩
  | deleted => exact absurd rfl (hkept _)

theorem refusesFirst_startIndex (hjobs : service.jobs.ReadsKeep) (request : Request) :
    RefusesFirst (startIndex service request) := by
  refine refusesFirst_bind (leaves_userOf request) fun user => ?_
  refine refusesFirst_bind (leaves_bodyRepo request) fun repo => ?_
  refine refusesFirst_bind (leaves_soundRepo repo) fun repo => ?_
  refine refusesFirst_handled fun w job w' hstart hrefusal => ?_
  cases job with
  | none => exact alike_of_start_none hjobs hstart
  | some job => exact absurd hrefusal (not_isRefusal_of_lt (show 202 < 400 by decide))

theorem refusesFirst_deleteIndex (hjobs : service.jobs.ReadsKeep) (request : Request) :
    RefusesFirst (deleteIndex service request) := by
  refine refusesFirst_bind (leaves_userOf request) fun user => ?_
  refine refusesFirst_bind (leaves_valueOf "repo" request) fun repo => ?_
  refine refusesFirst_bind (leaves_requiredRepo repo) fun repo => ?_
  refine refusesFirst_handled fun w deletion w' hdelete hrefusal => ?_
  cases deletion with
  | deleted chunks => exact absurd hrefusal (not_isRefusal_of_lt (show 200 < 400 by decide))
  | notFound => exact alike_of_delete hjobs hdelete nofun
  | active => exact alike_of_delete hjobs hdelete nofun

theorem refusesFirst_getSearch (request : Request) : RefusesFirst (getSearch service request) := by
  refine refusesFirst_bind (leaves_userOf request) fun user => ?_
  refine refusesFirst_bind (leaves_valueOf "repo" request) fun repo => ?_
  refine refusesFirst_bind (leaves_valueOf "q" request) fun text => ?_
  refine refusesFirst_bind (leaves_numberOf "topK" request) fun topK => ?_
  refine refusesFirst_bind (leaves_requiredRepo repo) fun repo => ?_
  dsimp only
  split
  · exact refusesFirst_of_leaves (leaves_throw_bind _ _)
  · exact refusesFirst_handled fun w hits w' _ hrefusal => absurd hrefusal (not_isRefusal_of_lt (show 200 < 400 by decide))

end

/-! ### Answers -/

section
variable {J R V : Type} {service : Service J R V}

theorem refusesFirst_route (hjobs : service.jobs.ReadsKeep) (request : Request) :
    RefusesFirst (route service request) := by
  have hthrow : ∀ response, RefusesFirst (throw response : Handler J R V Response) := fun response =>
    refusesFirst_of_leaves (leaves_throw response)
  unfold route
  dsimp only
  -- Whether the request is for headers only does not matter here.
  generalize (if request.method = "HEAD" then "GET" else request.method) = method
  split
  · split
    · exact refusesFirst_of_leaves (leaves_getIndex hjobs request)
    · split
      · exact refusesFirst_startIndex hjobs request
      · split
        · exact refusesFirst_deleteIndex hjobs request
        · exact hthrow _
  · split
    · split
      · exact refusesFirst_getSearch request
      · exact hthrow _
    · split
      · split
        · exact refusesFirst_of_leaves (leaves_pure _)
        · exact hthrow _
      · exact hthrow _

theorem leaves_route {O : Type} {observe : V → O} (hjobs : service.jobs.ReadsKeep)
    (hindex : service.index.QueriesKeep observe) {request : Request} (hmethod : request.method = "GET") :
    Leaves observe (route service request) := by
  have hnot : ¬request.method = "HEAD" := by
    rw [hmethod]
    decide
  unfold route
  dsimp only
  rw [if_neg hnot, if_pos hmethod, if_pos hmethod, if_pos hmethod]
  split
  · exact leaves_getIndex hjobs request
  · split
    · exact leaves_getSearch hindex request
    · split
      · exact leaves_pure _
      · exact leaves_throw _

/-- What is answered has the status that the handler ended with, and the world is the one it left. -/
theorem run_answer (service : Service J R V) {request : Request} (hmethod : request.method ≠ "OPTIONS")
    (w : World J R V) :
    ((answer service request).run w).1.status = (responseOf (outcome (route service request) w).1).status ∧
      ((answer service request).run w).2 = (outcome (route service request) w).2 := by
  rcases hroute : outcome (route service request) w with ⟨response | response, w'⟩
  · have hrun : StateT.run (ExceptT.run (route service request)) w = (.error response, w') := hroute
    simp only [answer, if_neg hmethod, StateT.run_bind, hrun]
    split <;> exact ⟨rfl, rfl⟩
  · have hrun : StateT.run (ExceptT.run (route service request)) w = (.ok response, w') := hroute
    simp only [answer, if_neg hmethod, StateT.run_bind, hrun]
    split <;> exact ⟨rfl, rfl⟩

/-- What the answer to a request keeps. A refused request changes no record of a run, nothing in the index,
and starts no run; and a request to read leaves the records and the runs, and of the index whatever searches
leave. -/
structure Harmless (service : Service J R V) (request : Request) (w : World J R V) : Prop where
  refused : 400 ≤ ((answer service request).run w).1.status →
    ((answer service request).run w).1.status < 500 → w.Alike id ((answer service request).run w).2
  read : request.method = "GET" → ∀ {O : Type} {observe : V → O}, service.index.QueriesKeep observe →
    w.Alike observe ((answer service request).run w).2

theorem harmless_of_readsKeep (hjobs : service.jobs.ReadsKeep) (request : Request) (w : World J R V) :
    Harmless service request w where
  refused hlow hhigh := by
    by_cases hmethod : request.method = "OPTIONS"
    · simp only [answer, if_pos hmethod] at hlow
      exact absurd (show 400 ≤ 200 from hlow) (by decide)
    · obtain ⟨hstatus, hworld⟩ := run_answer service hmethod w
      rw [hstatus] at hlow hhigh
      rw [hworld]
      exact refusesFirst_route hjobs request w ⟨hlow, hhigh⟩
  read hmethod _ _ hindex := by
    have hnot : request.method ≠ "OPTIONS" := by
      rw [hmethod]
      decide
    rw [(run_answer service hnot w).2]
    exact leaves_route hjobs hindex hmethod w

end

/-- Whichever store keeps the records of runs, and whatever the index does, every answer is harmless; and
searches leave the records of the index that is kept within the process. -/
theorem answer_harmless {R V : Type} (request : Request) :
    (∀ (service : Service Job.Memory R V) (w : World Job.Memory R V), service.jobs = Job.Memory.store →
      Harmless service request w) ∧
    (∀ (service : Service Job.Table R V) (w : World Job.Table R V), service.jobs = Job.Table.store →
      Harmless service request w) ∧
    VectorIndex.Local.index.QueriesKeep VectorIndex.Local.records := by
  refine ⟨fun service w hstore => ?_, fun service w hstore => ?_, VectorIndex.Local.queriesKeep⟩
  · refine harmless_of_readsKeep ?_ request w
    rw [hstore]
    exact Job.Memory.readsKeep
  · refine harmless_of_readsKeep ?_ request w
    rw [hstore]
    exact Job.Table.readsKeep

/-- A request to delete a repository. -/
def deletionRequest : Request := ⟨"DELETE", "/api/index?repo=acme/app", [("X-User-Id", "u1")], []⟩

/-- A world where no job is known, and where one record is stored for the repository all the same. -/
def strayWorld : World Job.Memory Unit VectorIndex.Local :=
  Service.bareWorld [⟨Chunk.idStart "u1" "acme/app" ++ "0", "", .null⟩]

/-- A request to delete what is not known is refused, and the index keeps its record. -/
theorem answer_harmless_unknown :
    ((answer Service.bareService deletionRequest).run strayWorld).1.status = 404 ∧
      ((answer Service.bareService deletionRequest).run strayWorld).2.index = strayWorld.index := by
  have hstatus : ((answer Service.bareService deletionRequest).run strayWorld).1.status = 404 := by
    decide +kernel
  have hharmless : Harmless Service.bareService deletionRequest strayWorld :=
    (answer_harmless deletionRequest).1 Service.bareService strayWorld rfl
  have hkept := hharmless.refused
  rw [hstatus] at hkept
  exact ⟨hstatus, (hkept (by decide) (by decide)).index_eq⟩

end Http
end SourceIndex
