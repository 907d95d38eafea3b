import Mathlib.Data.List.Infix
import SourceIndex.Proofs.VectorIndex.Batches
import SourceIndex.Proofs.VectorIndex.Exchanges
import SourceIndex.Proofs.VectorIndex.Listing

/-! What a deletion asks of its index, whatever the index answers. The deletion by the start of ids has two
parts: it lists pages up to one without a further cursor, and only then sends what the pages held of the
namespace, in batches, up to the first that fails. The deletion by queries follows if one of these calls fails
otherwise than for want of records. -/

namespace SourceIndex.VectorIndex
open Step

/-- No page follows. -/
def Page.isLast (page : Page) : Bool := page.next.all String.isEmpty

namespace Exchange

/-- The ids of a call to delete. -/
def ids? : Exchange → Option (List String)
  | .delete ids _ => some ids
  | _ => none

/-- The page of a call that gave one. -/
def page? : Exchange → Option Page
  | .range _ (.ok page) => some page
  | _ => none

def isQuery : Exchange → Bool
  | .query _ _ => true
  | _ => false

end Exchange

/-- The batches of ids that some calls sent. -/
def sentIn (made : List Exchange) : List (List String) := made.filterMap Exchange.ids?

/-- The ids of a page that start as given. -/
def Page.idsWith (start : String) (page : Page) : List String :=
  page.ids.filter fun id => start.toList.isPrefixOf id.toList

/-- The ids that start as given on the pages that some calls gave. -/
def listedIn (start : String) (made : List Exchange) : List String :=
  (made.filterMap Exchange.page?).flatMap (Page.idsWith start)

theorem start_of_mem_listedIn {start id : String} {made : List Exchange} (h : id ∈ listedIn start made) :
    start.toList.isPrefixOf id.toList = true := by
  obtain ⟨page, _, hid⟩ := List.mem_flatMap.mp h
  exact (List.mem_filter.mp hid).2

variable {σ : Type} (index : VectorIndex σ)

/-! ### Sending ids -/

/-- Some calls send batches of ids, in order, up to the first that fails; without a failure the result counts
what they removed. -/
structure Sends (batches : List (List String)) (result : Except Error Nat) (made : List Exchange) : Prop where
  deletes : ∀ x ∈ made, ∃ ids answer, x = .delete ids answer
  sent : sentIn made <+: batches
  stops : Stops result made
  complete : ∀ count, result = .ok count → sentIn made = batches ∧ count = removedIn made

theorem deleteBatches_makes (batches : List (List String)) :
    Makes (deleteBatches index batches) (deleteBatches index.observed batches) (Sends batches) := by
  induction batches with
  | nil =>
      refine makes_pure ⟨nofun, List.prefix_rfl, nofun, fun count h => ?_⟩
      cases h
      exact ⟨rfl, rfl⟩
  | cons batch rest ih =>
      have hlater : ∀ count, Makes (deleteBatches index rest >>= fun later => pure (count + later))
          (deleteBatches index.observed rest >>= fun later => pure (count + later))
          fun result made => ∃ later, Sends rest later made ∧ result = later.map (count + ·) := by
        intro count
        simp only [bind_pure_comp]
        exact ih.map _
      refine (makes_call (index.delete batch) (.delete batch)).bind hlater ?_ ?_
      · rintro e made rfl
        refine ⟨?_, List.prefix_append [batch] rest, stops_of_error rfl, nofun⟩
        intro x hx
        exact ⟨batch, _, List.mem_singleton.mp hx⟩
      · rintro count made result later rfl ⟨value, hsends, rfl⟩
        refine ⟨?_, ?_, (hsends.stops.map _).cons rfl, ?_⟩
        · intro x hx
          rcases List.mem_cons.mp hx with rfl | hx
          · exact ⟨batch, _, rfl⟩
          · exact hsends.deletes x hx
        · exact List.prefix_cons_inj batch |>.mpr hsends.sent
        · intro total htotal
          cases value with
          | error e => cases htotal
          | ok sum =>
              cases htotal
              obtain ⟨hsent, hsum⟩ := hsends.complete sum rfl
              refine ⟨congrArg (batch :: ·) hsent, ?_⟩
              simp [hsum, Exchange.removed]

theorem deleteAll_makes (ids : List String) :
    Makes (deleteAll index ids) (deleteAll index.observed ids) (Sends (batches deleteBatch ids)) :=
  deleteBatches_makes index (batches deleteBatch ids)

/-! ### Listing pages -/

/-- Some calls list pages from a cursor on, up to the first that is the last or that fails, and at most so many. -/
structure Lists (start cursor : String) (fuel : Nat) (result : Except Error (Option (List String)))
    (made : List Exchange) : Prop where
  ranges : ∀ x ∈ made, ∃ cursor answer, x = .range ⟨cursor, pageSize, some start⟩ answer
  first : ∀ request answer after, made = .range request answer :: after → request.cursor = cursor
  /-- Each call starts where the page before says that the next one does. -/
  follows : ∀ before request page request' answer after,
    made = before ++ .range request (.ok page) :: .range request' answer :: after → page.next = some request'.cursor
  ends : ∀ before request page after, made = before ++ .range request (.ok page) :: after →
    page.isLast = true → after = []
  stops : Stops result made
  complete : ∀ ids, result = .ok (some ids) → ids = listedIn start made ∧
    ∃ before request page, made = before ++ [.range request (.ok page)] ∧ page.isLast = true
  spent : result = .ok none → made.length = fuel ∧
    ∀ request page, .range request (.ok page) ∈ made → page.isLast = false

theorem lists_nil (start cursor : String) : Lists start cursor 0 (.ok none) [] where
  ranges x hx := absurd hx List.not_mem_nil
  first request answer after h := by simp at h
  follows before request page request' answer after h := by simp at h
  ends before request page after h _ := by simp at h
  stops x hx := absurd hx List.not_mem_nil
  complete ids h := by simp at h
  spent _ := ⟨rfl, nofun⟩

theorem eq_nil_of_singleton {x y : Exchange} {before after : List Exchange}
    (h : [x] = before ++ y :: after) : after = [] := by
  rcases before with _ | ⟨z, before⟩
  · exact (List.cons.inj h).2.symm
  · simp at h

/-- A call that fails ends the listing. -/
theorem lists_failed (start cursor : String) (e : Error) (fuel : Nat) :
    Lists start cursor (fuel + 1) (.error e) [.range ⟨cursor, pageSize, some start⟩ (.error e)] where
  ranges x hx := ⟨cursor, _, List.mem_singleton.mp hx⟩
  first request answer after h := by
    cases h
    rfl
  follows before request page request' answer after h := absurd (eq_nil_of_singleton h) (List.cons_ne_nil _ _)
  ends before request page after h _ := eq_nil_of_singleton h
  stops := stops_of_error rfl
  complete ids h := by simp at h
  spent h := by simp at h

/-- A page that is the last one ends the listing. -/
theorem lists_last {start cursor : String} {page : Page} (hlast : page.isLast = true) (fuel : Nat) :
    Lists start cursor (fuel + 1) (.ok (some (page.idsWith start)))
      [.range ⟨cursor, pageSize, some start⟩ (.ok page)] where
  ranges x hx := ⟨cursor, _, List.mem_singleton.mp hx⟩
  first request answer after h := by
    cases h
    rfl
  follows before request page request' answer after h := absurd (eq_nil_of_singleton h) (List.cons_ne_nil _ _)
  ends before request page after h _ := eq_nil_of_singleton h
  stops x hx := by
    rw [List.mem_singleton.mp hx]
    rfl
  complete ids h := by
    cases h
    refine ⟨?_, [], _, page, rfl, hlast⟩
    simp [listedIn, Exchange.page?]
  spent h := nomatch h

/-- Any other page is followed by the listing from its cursor on. -/
theorem lists_cons {start cursor next : String} {page : Page} (hnext : page.next = some next)
    (hlast : page.isLast = false) {fuel : Nat} {result : Except Error (Option (List String))} {made : List Exchange}
    (h : Lists start next fuel result made) :
    Lists start cursor (fuel + 1) (result.map (·.map (page.idsWith start ++ ·)))
      (.range ⟨cursor, pageSize, some start⟩ (.ok page) :: made) where
  ranges x hx := by
    rcases List.mem_cons.mp hx with rfl | hx
    · exact ⟨cursor, _, rfl⟩
    · exact h.ranges x hx
  first request answer after heq := by
    cases heq
    rfl
  follows before request page' request' answer after heq := by
    rcases before with _ | ⟨x, before⟩
    · obtain ⟨hpage, hrest⟩ := List.cons.inj heq
      cases hpage
      rw [hnext, h.first request' answer after hrest]
    · exact h.follows before request page' request' answer after (List.cons.inj heq).2
  ends before request page' after heq hlast' := by
    rcases before with _ | ⟨x, before⟩
    · obtain ⟨hfirst, _⟩ := List.cons.inj heq
      cases hfirst
      rw [hlast] at hlast'
      cases hlast'
    · exact h.ends before request page' after (List.cons.inj heq).2 hlast'
  stops := (h.stops.map _).cons rfl
  complete ids heq := by
    rcases result with e | _ | later
    · cases heq
    · cases heq
    · cases heq
      obtain ⟨hids, before, request, page', rfl, hlast'⟩ := h.complete later rfl
      refine ⟨?_, _ :: before, request, page', rfl, hlast'⟩
      rw [hids]
      simp [listedIn, Exchange.page?]
  spent heq := by
    rcases result with e | _ | later
    · cases heq
    · obtain ⟨hlength, hpages⟩ := h.spent rfl
      refine ⟨by rw [List.length_cons, hlength], fun request page' hx => ?_⟩
      rcases List.mem_cons.mp hx with hfirst | hx
      · cases hfirst
        exact hlast
      · exact hpages request page' hx
    · cases heq

theorem listIds_makes (start : String) (fuel : Nat) (cursor : String) :
    Makes (listIds index start fuel cursor) (listIds index.observed start fuel cursor)
      (Lists start cursor fuel) := by
  induction fuel generalizing cursor with
  | zero => exact makes_pure (lists_nil start cursor)
  | succ fuel ih =>
      rw [listIds, listIds]
      refine (makes_call (index.range ⟨cursor, pageSize, some start⟩) (.range _)).bind
        (Q := fun page result made => Lists start cursor (fuel + 1) result
          (.range ⟨cursor, pageSize, some start⟩ (.ok page) :: made)) (fun page => ?_) ?_ ?_
      · dsimp only
        cases hnext : page.next with
        | none => exact makes_pure (lists_last (by rw [Page.isLast, hnext]; rfl) fuel)
        | some next =>
            dsimp only
            by_cases hempty : next.isEmpty = true
            · rw [if_pos hempty, if_pos hempty]
              exact makes_pure (lists_last (by rw [Page.isLast, hnext]; exact hempty) fuel)
            · rw [if_neg hempty, if_neg hempty]
              have hlast : page.isLast = false := by
                rw [Page.isLast, hnext]
                exact Bool.not_eq_true _ ▸ hempty
              simp only [bind_pure_comp]
              refine ((ih next).map _).mono fun result made hmade => ?_
              obtain ⟨value, hlists, rfl⟩ := hmade
              exact lists_cons hnext hlast hlists
      · rintro e made rfl
        exact lists_failed start cursor e fuel
      · rintro page made result later rfl hlater
        exact hlater

/-! ### The deletion by the start of ids -/

/-- What the deletion by the start of ids calls: first it lists pages, then it sends ids to delete. -/
structure Phase (start : String) (fuel : Nat) (result : Except Error (Option Nat))
    (scan sends : List Exchange) : Prop where
  ranges : ∀ x ∈ scan, ∃ cursor answer, x = .range ⟨cursor, pageSize, some start⟩ answer
  /-- The listing starts at the first page. -/
  first : ∀ request answer after, scan = .range request answer :: after → request.cursor = firstCursor
  /-- Each call starts where the page before says that the next one does. -/
  follows : ∀ before request page request' answer after,
    scan = before ++ .range request (.ok page) :: .range request' answer :: after → page.next = some request'.cursor
  /-- The first page without a further cursor ends the listing. -/
  ends : ∀ before request page after, scan = before ++ .range request (.ok page) :: after →
    page.isLast = true → after = []
  deletes : ∀ x ∈ sends, ∃ ids answer, x = .delete ids answer
  /-- Nothing is sent before that page was given. -/
  listed : sends ≠ [] → ∃ before request page,
    scan = before ++ [.range request (.ok page)] ∧ page.isLast = true
  sent : (sentIn sends).flatten <+: listedIn start scan
  sizes : ∀ batch ∈ sentIn sends, batch ≠ [] ∧ batch.length ≤ deleteBatch
  stops : Stops result (scan ++ sends)
  /-- A deletion that ends with a count has listed every page and sent all of their ids. -/
  complete : ∀ count, result = .ok (some count) →
    (sentIn sends).flatten = listedIn start scan ∧ count = removedIn sends ∧
    ∃ before request page, scan = before ++ [.range request (.ok page)] ∧ page.isLast = true
  /-- Only the limit on pages ends the deletion otherwise. -/
  spent : result = .ok none → sends = [] ∧ scan.length = fuel ∧
    ∀ request page, .range request (.ok page) ∈ scan → page.isLast = false

section Phases

variable {start : String} {fuel : Nat} {scan : List Exchange}

/-- Without anything to send the phase is over. -/
theorem Lists.phase {listed : Except Error (Option (List String))} (h : Lists start firstCursor fuel listed scan)
    {result : Except Error (Option Nat)} (hstops : Stops result scan)
    (hcomplete : ∀ count, result = .ok (some count) → count = 0 ∧ listed = .ok (some []))
    (hspent : result = .ok none → listed = .ok none) : Phase start fuel result scan [] where
  ranges := h.ranges
  first := h.first
  follows := h.follows
  ends := h.ends
  deletes := nofun
  listed h := absurd rfl h
  sent := List.nil_prefix
  sizes := nofun
  stops := by rwa [List.append_nil]
  complete count hcount := by
    obtain ⟨rfl, hlisted⟩ := hcomplete count hcount
    obtain ⟨hids, hlast⟩ := h.complete [] hlisted
    exact ⟨hids, rfl, hlast⟩
  spent hnone := ⟨rfl, h.spent (hspent hnone)⟩

/-- Once everything is listed the ids are sent. -/
theorem Lists.phase_sends {ids : List String} (h : Lists start firstCursor fuel (.ok (some ids)) scan)
    {result : Except Error Nat} {sends : List Exchange}
    (hsends : Sends (batches deleteBatch ids) result sends) :
    Phase start fuel (result.map some) scan sends where
  ranges := h.ranges
  first := h.first
  follows := h.follows
  ends := h.ends
  deletes := hsends.deletes
  listed _ := (h.complete ids rfl).2
  sent := by
    have hsent := hsends.sent.flatten
    rwa [flatten_batches (by decide), (h.complete ids rfl).1] at hsent
  sizes batch hbatch := size_of_mem_batches (by decide) (hsends.sent.subset hbatch)
  stops := (hsends.stops.map some).append h.stops
  complete count hcount := by
    cases result with
    | error e => cases hcount
    | ok total =>
        cases hcount
        obtain ⟨hsent, htotal⟩ := hsends.complete count rfl
        rw [hsent, flatten_batches (by decide)]
        obtain ⟨hids, hlast⟩ := h.complete ids rfl
        exact ⟨hids, htotal, hlast⟩
  spent hnone := by
    cases result with
    | error e => cases hnone
    | ok total => cases hnone

end Phases

theorem deleteByStart_makes (fuel : Nat) (start : String) :
    Makes (deleteByStart index fuel start) (deleteByStart index.observed fuel start)
      fun result made => ∃ scan sends, made = scan ++ sends ∧ Phase start fuel result scan sends := by
  refine (listIds_makes index start fuel firstCursor).bind
    (Q := fun listed result sends => ∀ scan, Lists start firstCursor fuel (.ok listed) scan →
      Phase start fuel result scan sends) (fun listed => ?_) ?_ ?_
  · rcases listed with _ | _ | ⟨id, rest⟩
    · exact makes_pure fun scan h => h.phase h.stops nofun fun _ => rfl
    · refine makes_pure fun scan h => h.phase h.stops (fun count hcount => ?_) nofun
      cases hcount
      exact ⟨rfl, rfl⟩
    · refine ((deleteAll_makes index (id :: rest)).map some).mono ?_
      rintro result made ⟨value, hsends, rfl⟩ scan h
      exact h.phase_sends hsends
  · intro e made h
    exact ⟨made, [], (List.append_nil made).symm, h.phase h.stops nofun nofun⟩
  · intro listed made result later h hlater
    exact ⟨made, later, rfl, hlater made h⟩

/-! ### The deletion by queries -/

/-- Some calls query at most so many times and delete what is found. -/
structure Rounds (rounds : Nat) (result : Except Error Nat) (made : List Exchange) : Prop where
  stops : Stops result made
  counts : ∀ count, result = .ok count → count = removedIn made
  queries : made.countP Exchange.isQuery ≤ rounds

theorem Sends.queries {batches : List (List String)} {result : Except Error Nat} {made : List Exchange}
    (h : Sends batches result made) : made.countP Exchange.isQuery = 0 := by
  rw [List.countP_eq_zero]
  intro x hx
  obtain ⟨ids, answer, rfl⟩ := h.deletes x hx
  exact Bool.false_ne_true

/-- What a round does before and after its query. -/
theorem Rounds.of_query {rounds : Nat} {request : Query} {found : List Match} {result : Except Error Nat}
    {made : List Exchange} (h : Rounds rounds result made) :
    Rounds (rounds + 1) result (.query request (.ok found) :: made) where
  stops := h.stops.cons rfl
  counts count hcount := by
    rw [h.counts count hcount, removedIn_cons]
    exact (Nat.zero_add _).symm
  queries := by
    rw [List.countP_cons]
    exact Nat.add_le_add_right h.queries 1

theorem Rounds.of_sends {rounds removed : Nat} {batches : List (List String)} {sends : List Exchange}
    (hsends : Sends batches (.ok removed) sends) {result : Except Error Nat} {made : List Exchange}
    (h : Rounds rounds result made) : Rounds rounds (result.map (removed + ·)) (sends ++ made) where
  stops := .append hsends.stops (h.stops.map _)
  counts count hcount := by
    cases result with
    | error e => cases hcount
    | ok later =>
        cases hcount
        rw [removedIn_append, ← (hsends.complete removed rfl).2, h.counts later rfl]
  queries := by
    rw [List.countP_append, hsends.queries, Nat.zero_add]
    exact h.queries

theorem rounds_nil (rounds : Nat) : Rounds rounds (.ok 0) [] where
  stops := nofun
  counts count hcount := by
    cases hcount
    rfl
  queries := Nat.zero_le rounds

theorem deleteRounds_makes (request : Query) (rounds : Nat) :
    Makes (deleteRounds index request rounds) (deleteRounds index.observed request rounds)
      (Rounds rounds) := by
  induction rounds with
  | zero => exact makes_pure (rounds_nil 0)
  | succ rounds ih =>
      rw [deleteRounds, deleteRounds]
      refine (makes_call (index.query request) (.query request)).bind
        (Q := fun _ => Rounds rounds) (fun found => ?_) ?_ ?_
      · by_cases hempty : found.isEmpty = true
        · rw [if_pos hempty, if_pos hempty]
          exact makes_pure (rounds_nil rounds)
        · rw [if_neg hempty, if_neg hempty]
          refine (deleteAll_makes index (found.map Match.id)).bind
            (Q := fun removed result made => ∃ value, Rounds rounds value made ∧
              result = value.map (removed + ·)) (fun removed => ?_) ?_ ?_
          · by_cases hzero : removed = 0
            · rw [if_pos hzero, if_pos hzero, hzero]
              exact makes_pure ⟨.ok 0, rounds_nil rounds, rfl⟩
            · rw [if_neg hzero, if_neg hzero]
              simp only [bind_pure_comp]
              exact ih.map _
          · intro e made h
            exact ⟨h.stops, nofun, h.queries ▸ Nat.zero_le rounds⟩
          · rintro removed made result later hsends ⟨value, hrounds, rfl⟩
            exact hrounds.of_sends hsends
      · rintro e made rfl
        exact ⟨stops_of_error rfl, nofun, Nat.succ_le_succ (Nat.zero_le rounds)⟩
      · rintro found made result later rfl hlater
        exact hlater.of_query

/-! ### Deletions -/

/-- What an empty index has removed is nothing. -/
def vacuous : Except Error Nat → Except Error Nat
  | .error .emptyIndex => .ok 0
  | result => result

theorem outcome_noneIfEmpty (step : Step Error σ Nat) (s : σ) :
    outcome (noneIfEmpty step) s = (vacuous (outcome step s).1, (outcome step s).2) := by
  rw [noneIfEmpty, outcome_bind, outcome_attempt]
  rcases outcome step s with ⟨(_ | _ | _ | _) | count, s'⟩ <;> rfl

/-- The result of a deletion, from what its calls came to. -/
def deletionResult (repo : String) (result : Except Error Nat) : Except Failure Nat :=
  ((vacuous result).mapError .ofIndex).mapError (Failure.during (deletionAttempt repo))

theorem makes_deletion {step : Step Error σ Nat} {seen : Step Error (Observed σ) Nat}
    {P : Except Error Nat → List Exchange → Prop} (h : Makes step seen P) (repo : String) :
    Makes (Action.during (deletionAttempt repo) ((noneIfEmpty step).mapError .ofIndex))
      (Action.during (deletionAttempt repo) ((noneIfEmpty seen).mapError .ofIndex))
      fun result made => ∃ value, P value made ∧ result = deletionResult repo value := by
  intro s before
  obtain ⟨made, hmade, hseen⟩ := h s before
  refine ⟨made, ⟨_, hmade, ?_⟩, ?_⟩
  · rw [Action.during, outcome_mapError, outcome_mapError, outcome_noneIfEmpty]
    rfl
  · rw [Action.during, outcome_mapError, outcome_mapError, outcome_noneIfEmpty, hseen, Action.during,
      outcome_mapError, outcome_mapError, outcome_noneIfEmpty]

theorem deleteChunkIds_makes (repo : String) (ids : List String) :
    Makes (deleteChunkIds index repo ids) (deleteChunkIds index.observed repo ids)
      fun result made => ∃ value, Sends (batches deleteBatch ids) value made ∧
        result = deletionResult repo value :=
  makes_deletion (deleteAll_makes index ids) repo

/-- How a deletion goes on after its phase: it is over, unless a call failed otherwise than for want of
records; then queries follow. -/
inductive Follows (repo : String) : Except Error (Option Nat) → Except Failure Nat → List Exchange → Prop
  | counted (count : Nat) : Follows repo (.ok (some count)) (.ok count) []
  | endless : Follows repo (.ok none) (.error ⟨[], .endless⟩) []
  | empty : Follows repo (.error .emptyIndex) (.ok 0) []
  | rounds {e : Error} {value : Except Error Nat} {made : List Exchange} (he : e ≠ .emptyIndex)
      (h : Rounds maxRounds value made) : Follows repo (.error e) (deletionResult repo value) made

theorem deleteChunks_makes (fuel : Nat) (repo user : String) :
    Makes (deleteChunks index fuel repo user) (deleteChunks index.observed fuel repo user)
      fun result made => ∃ phase scan sends rest, made = scan ++ sends ++ rest ∧
        Phase (Chunk.idStart user repo) fuel phase scan sends ∧ Follows repo phase result rest := by
  refine (deleteByStart_makes index fuel (Chunk.idStart user repo)).attempt.bind
    (Q := fun phase => Follows repo phase) (fun phase => ?_) ?_ ?_
  · have hrounds : ∀ {e}, e ≠ .emptyIndex → Makes
        (Action.during (deletionAttempt repo)
          ((noneIfEmpty (deleteRounds index (deletionQuery repo user) maxRounds)).mapError .ofIndex))
        (Action.during (deletionAttempt repo)
          ((noneIfEmpty (deleteRounds index.observed (deletionQuery repo user) maxRounds)).mapError .ofIndex))
        (Follows repo (.error e)) := by
      intro e he
      refine (makes_deletion (deleteRounds_makes index (deletionQuery repo user) maxRounds) repo).mono ?_
      rintro result made ⟨value, hrounds, rfl⟩
      exact .rounds he hrounds
    rcases phase with (_ | _ | _ | _) | _ | count
    · exact makes_pure .empty
    · exact hrounds nofun
    · exact hrounds nofun
    · exact hrounds nofun
    · exact makes_throw .endless
    · exact makes_pure (.counted count)
  · rintro failure made ⟨value, _, h⟩
    cases h
  · rintro phase made result later ⟨value, ⟨scan, sends, rfl, hphase⟩, heq⟩ hfollows
    cases heq
    exact ⟨phase, scan, sends, later, rfl, hphase, hfollows⟩

/-- Whatever an index answers, the deletion of a repository first lists pages of ids, each from where the one before
ended, and sends nothing to delete before a page without a further cursor. Then it sends the ids of all pages that are
in the namespace, in order and in batches, and no other, up to the first call that fails. The index within the process, when no failure
waits for it, so loses the records of the namespace and no other, and the result is their number. -/
theorem deletion_listsThenSends (repo user : String) :
    (∀ {σ : Type} (index : VectorIndex σ) (s : σ) (fuel : Nat), ∃ phase scan sends rest,
      outcome (deleteChunks index.observed fuel repo user) ⟨s, []⟩ =
        ((outcome (deleteChunks index fuel repo user) s).1,
          ⟨(outcome (deleteChunks index fuel repo user) s).2, scan ++ sends ++ rest⟩) ∧
      Phase (Chunk.idStart user repo) fuel phase scan sends ∧
      Follows repo phase (outcome (deleteChunks index fuel repo user) s).1 rest ∧
      ∀ batch ∈ sentIn sends, ∀ id ∈ batch,
        (Chunk.idStart user repo).toList.isPrefixOf id.toList = true) ∧
    ∀ {index : Local}, Local.Sorted index.records → index.Quiet →
      (index.records.filter (Local.startsWith (Chunk.idStart user repo))).length ≤ Text.maxWord64 →
      ∃ limit, ∀ fuel, limit ≤ fuel → ∃ calls,
        outcome (deleteChunks Local.index fuel repo user) index =
          (.ok (index.records.filter (Local.startsWith (Chunk.idStart user repo))).length,
            index.after calls
              (index.records.filter fun r => !Local.startsWith (Chunk.idStart user repo) r)) := by
  refine ⟨fun index s fuel => ?_, fun {index} hsorted hquiet hsize => ?_⟩
  · obtain ⟨made, ⟨phase, scan, sends, rest, rfl, hphase, hfollows⟩, houtcome⟩ :=
      deleteChunks_makes index fuel repo user s []
    refine ⟨phase, scan, sends, rest, houtcome, hphase, hfollows, fun batch hbatch id hid => ?_⟩
    exact start_of_mem_listedIn (hphase.sent.subset (List.mem_flatten_of_mem hbatch hid))
  · exact ⟨_, fun fuel hfuel => Local.outcome_deleteChunks_of_lt hquiet hsorted hsize (Nat.lt_of_succ_le hfuel)⟩

/-- A record in a namespace, and one outside of it. -/
def namespaceRecord : Record := ⟨Chunk.idStart "u1" "acme/app" ++ "0", "", .null⟩

def otherRecord : Record := ⟨"other", "", .null⟩

def twoRecords : Local := ⟨[namespaceRecord, otherRecord], [], .none⟩

theorem sorted_twoRecords : Local.Sorted twoRecords.records := by
  have hsorted : namespaceRecord.id < otherRecord.id := by decide +kernel
  exact List.pairwise_pair.mpr hsorted

theorem filter_twoRecords :
    twoRecords.records.filter (Local.startsWith (Chunk.idStart "u1" "acme/app")) = [namespaceRecord] ∧
      (twoRecords.records.filter fun r => !Local.startsWith (Chunk.idStart "u1" "acme/app") r) =
        [otherRecord] := by
  have hinside : Local.startsWith (Chunk.idStart "u1" "acme/app") namespaceRecord = true := by decide +kernel
  have houtside : Local.startsWith (Chunk.idStart "u1" "acme/app") otherRecord = false := by decide +kernel
  simp [twoRecords, hinside, houtside]

theorem deletion_listsThenSends_twoRecords :
    ∃ limit, ∀ fuel, limit ≤ fuel → ∃ calls,
      outcome (deleteChunks Local.index fuel "acme/app" "u1") twoRecords =
        (.ok 1, twoRecords.after calls [otherRecord]) := by
  have hsize : (twoRecords.records.filter
      (Local.startsWith (Chunk.idStart "u1" "acme/app"))).length ≤ Text.maxWord64 := by
    rw [filter_twoRecords.1]
    decide
  have hdeletes := (deletion_listsThenSends "acme/app" "u1").2 sorted_twoRecords rfl hsize
  rwa [filter_twoRecords.1, filter_twoRecords.2] at hdeletes

end SourceIndex.VectorIndex
