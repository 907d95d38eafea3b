import SourceIndex.Proofs.VectorIndex.Deletion
import SourceIndex.VectorIndex.Recorded

/-! Whether a deletion ends. Its queries are bounded, but it lists pages for as long as each one names a further
cursor. So it ends exactly if the index fails or gives a page without one at some time; otherwise the limit on
pages is spent, however large it is. -/

namespace SourceIndex.VectorIndex
open Step

variable {σ : Type}

/-- The pages from a cursor on come to an end. -/
inductive ScanEnds (index : VectorIndex σ) (start : String) : String → σ → Prop
  | failed {cursor : String} {s s' : σ} {e : Error}
      (hrange : outcome (index.range ⟨cursor, pageSize, some start⟩) s = (.error e, s')) :
      ScanEnds index start cursor s
  | last {cursor : String} {s s' : σ} {page : Page}
      (hrange : outcome (index.range ⟨cursor, pageSize, some start⟩) s = (.ok page, s'))
      (hlast : page.isLast = true) : ScanEnds index start cursor s
  | further {cursor next : String} {s s' : σ} {page : Page}
      (hrange : outcome (index.range ⟨cursor, pageSize, some start⟩) s = (.ok page, s'))
      (hnext : page.next = some next) (hmore : next.isEmpty = false)
      (hlater : ScanEnds index start next s') : ScanEnds index start cursor s

theorem Page.isLast_or (page : Page) :
    page.isLast = true ∨ ∃ next, page.next = some next ∧ next.isEmpty = false := by
  cases hnext : page.next with
  | none => exact .inl (by rw [Page.isLast, hnext]; rfl)
  | some next =>
      cases hempty : next.isEmpty with
      | true => exact .inl (by rw [Page.isLast, hnext]; exact hempty)
      | false => exact .inr ⟨next, rfl, hempty⟩

section Listing

variable {index : VectorIndex σ} {start cursor : String} {s s' : σ} {page : Page}

theorem outcome_listIds_of_last
    (hrange : outcome (index.range ⟨cursor, pageSize, some start⟩) s = (.ok page, s'))
    (hlast : page.isLast = true) (fuel : Nat) :
    outcome (listIds index start (fuel + 1) cursor) s = (.ok (some (page.idsWith start)), s') := by
  rw [listIds, outcome_bind_of_ok hrange]
  cases hnext : page.next with
  | none => rfl
  | some next =>
      rw [Page.isLast, hnext] at hlast
      have hempty : next.isEmpty = true := hlast
      dsimp only
      rw [if_pos hempty]
      rfl

theorem outcome_listIds_of_further {next : String}
    (hrange : outcome (index.range ⟨cursor, pageSize, some start⟩) s = (.ok page, s'))
    (hnext : page.next = some next) (hmore : next.isEmpty = false) (fuel : Nat) :
    outcome (listIds index start (fuel + 1) cursor) s =
      ((outcome (listIds index start fuel next) s').1.map (·.map (page.idsWith start ++ ·)),
        (outcome (listIds index start fuel next) s').2) := by
  rw [listIds, outcome_bind_of_ok hrange]
  simp only [hnext, hmore, Bool.false_eq_true, if_false, bind_pure_comp, outcome_map]
  rfl

/-- Prefixing what is listed does not make up for pages without an end. -/
theorem map_map_eq_none_iff {ids : List String} {listed : Except Error (Option (List String))} :
    listed.map (·.map (ids ++ ·)) = .ok none ↔ listed = .ok none := by
  rcases listed with e | _ | later <;> simp

/-- Pages that come to an end are listed alike within every limit that is large enough. -/
theorem ScanEnds.outcome_listIds (h : ScanEnds index start cursor s) :
    ∃ limit listed, listed.1 ≠ .ok none ∧
      ∀ fuel, limit ≤ fuel → outcome (listIds index start fuel cursor) s = listed := by
  induction h with
  | @failed cursor s s' e hrange =>
      refine ⟨1, (.error e, s'), by simp, fun fuel hfuel => ?_⟩
      obtain ⟨fuel, rfl⟩ := Nat.exists_eq_add_of_le' hfuel
      rw [listIds, outcome_bind_of_error hrange]
  | @last cursor s s' page hrange hlast =>
      refine ⟨1, (.ok (some (page.idsWith start)), s'), by simp, fun fuel hfuel => ?_⟩
      obtain ⟨fuel, rfl⟩ := Nat.exists_eq_add_of_le' hfuel
      exact outcome_listIds_of_last hrange hlast fuel
  | @further cursor next s s' page hrange hnext hmore hlater ih =>
      obtain ⟨limit, listed, hlisted, hall⟩ := ih
      refine ⟨limit + 1, (listed.1.map (·.map (page.idsWith start ++ ·)), listed.2),
        fun heq => hlisted (map_map_eq_none_iff.mp heq), fun fuel hfuel => ?_⟩
      obtain ⟨fuel, rfl⟩ := Nat.exists_eq_add_of_le' (Nat.le_of_add_left_le hfuel)
      rw [outcome_listIds_of_further hrange hnext hmore, hall fuel (Nat.le_of_succ_le_succ hfuel)]

/-- Pages that are listed within some limit come to an end. -/
theorem scanEnds_of_listed {fuel : Nat}
    (h : (outcome (listIds index start fuel cursor) s).1 ≠ .ok none) : ScanEnds index start cursor s := by
  induction fuel generalizing cursor s with
  | zero => exact absurd rfl h
  | succ fuel ih =>
      rcases hrange : outcome (index.range ⟨cursor, pageSize, some start⟩) s with ⟨e | page, s'⟩
      · exact .failed hrange
      · rcases page.isLast_or with hlast | ⟨next, hnext, hmore⟩
        · exact .last hrange hlast
        · rw [outcome_listIds_of_further hrange hnext hmore] at h
          exact .further hrange hnext hmore (ih fun heq => h (map_map_eq_none_iff.mpr heq))

/-- Observing an index does not change its pages. -/
theorem ScanEnds.observed (h : ScanEnds index start cursor s) (before : List Exchange) :
    ScanEnds index.observed start cursor ⟨s, before⟩ := by
  have hseen : ∀ {cursor s answer s'} before,
      outcome (index.range ⟨cursor, pageSize, some start⟩) s = (answer, s') →
        ∃ after, outcome (index.observed.range ⟨cursor, pageSize, some start⟩) ⟨s, before⟩ =
          (answer, ⟨s', after⟩) := by
    intro cursor s answer s' before hrange
    obtain ⟨made, rfl, hcall⟩ := makes_call (index.range ⟨cursor, pageSize, some start⟩) (.range _) s before
    rw [hrange] at hcall
    exact ⟨_, hcall⟩
  induction h generalizing before with
  | failed hrange =>
      obtain ⟨after, hobserved⟩ := hseen before hrange
      exact .failed hobserved
  | last hrange hlast =>
      obtain ⟨after, hobserved⟩ := hseen before hrange
      exact .last hobserved hlast
  | further hrange hnext hmore hlater ih =>
      obtain ⟨after, hobserved⟩ := hseen before hrange
      exact .further hobserved hnext hmore (ih after)

end Listing

variable {index : VectorIndex σ} {repo user : String} {s : σ}

/-- A limit on pages matters to a deletion only through the pages that are listed. -/
theorem outcome_deleteChunks_congr {fuel more : Nat}
    (h : outcome (listIds index (Chunk.idStart user repo) fuel firstCursor) s =
      outcome (listIds index (Chunk.idStart user repo) more firstCursor) s) :
    outcome (deleteChunks index fuel repo user) s = outcome (deleteChunks index more repo user) s := by
  rw [deleteChunks, deleteChunks, outcome_bind, outcome_bind, outcome_attempt, outcome_attempt, deleteByStart,
    deleteByStart, outcome_bind, outcome_bind, h]

theorem outcome_deleteChunks_of_unlisted {fuel : Nat}
    (h : (outcome (listIds index (Chunk.idStart user repo) fuel firstCursor) s).1 = .ok none) :
    (outcome (deleteChunks index fuel repo user) s).1 = .error ⟨[], .endless⟩ := by
  have hlisted : outcome (listIds index (Chunk.idStart user repo) fuel firstCursor) s = (.ok none, _) :=
    Prod.ext h rfl
  rw [deleteChunks, outcome_bind, outcome_attempt, deleteByStart, outcome_bind_of_ok hlisted]
  rfl

/-- A deletion of pages without an end has spent its limit on them. -/
theorem Follows.endless_iff {phase : Except Error (Option Nat)} {result : Except Failure Nat}
    {rest : List Exchange} (h : Follows repo phase result rest) :
    result = .error ⟨[], .endless⟩ ↔ phase = .ok none ∧ rest = [] := by
  cases h with
  | counted count => simp
  | endless => simp
  | empty => simp
  | @rounds e value made he hrounds =>
      refine ⟨fun h => ?_, fun h => nomatch h.1⟩
      rcases value with (_ | _ | _ | _) | count <;> cases h

theorem Phase.queries {start : String} {fuel : Nat} {phase : Except Error (Option Nat)}
    {scan sends : List Exchange} (h : Phase start fuel phase scan sends) :
    (scan ++ sends).countP Exchange.isQuery = 0 := by
  rw [List.countP_eq_zero]
  intro x hx
  rcases List.mem_append.mp hx with hx | hx
  · obtain ⟨cursor, answer, rfl⟩ := h.ranges x hx
    exact Bool.false_ne_true
  · obtain ⟨ids, answer, rfl⟩ := h.deletes x hx
    exact Bool.false_ne_true

theorem Follows.queries {phase : Except Error (Option Nat)} {result : Except Failure Nat}
    {rest : List Exchange} (h : Follows repo phase result rest) :
    rest.countP Exchange.isQuery ≤ maxRounds := by
  cases h with
  | counted count => exact Nat.zero_le maxRounds
  | endless => exact Nat.zero_le maxRounds
  | empty => exact Nat.zero_le maxRounds
  | rounds he hrounds => exact hrounds.queries

/-- The calls of a deletion: few of them are queries, and the limit on pages is spent if it is the one that ends
the deletion. -/
theorem exchanges_deleteChunks (index : VectorIndex σ) (s : σ) (fuel : Nat) (repo user : String) :
    ∃ o, outcome (deleteChunks index.observed fuel repo user) ⟨s, []⟩ =
        ((outcome (deleteChunks index fuel repo user) s).1, o) ∧
      o.exchanges.countP Exchange.isQuery ≤ maxRounds ∧
      ((outcome (deleteChunks index fuel repo user) s).1 = .error ⟨[], .endless⟩ → o.exchanges.length = fuel) := by
  obtain ⟨made, ⟨phase, scan, sends, rest, rfl, hphase, hfollows⟩, houtcome⟩ :=
    deleteChunks_makes index fuel repo user s []
  refine ⟨_, houtcome, ?_, fun hendless => ?_⟩
  · rw [List.nil_append, List.countP_append, hphase.queries, Nat.zero_add]
    exact hfollows.queries
  · obtain ⟨hspent, rfl⟩ := hfollows.endless_iff.mp hendless
    obtain ⟨rfl, hlength, -⟩ := hphase.spent hspent
    simpa using hlength

/-- A deletion ends exactly if the pages of the namespace do. Then it has the same outcome within every limit on
pages that is large enough, after at most so many queries; otherwise it spends every limit on listing. -/
theorem deletion_ends (index : VectorIndex σ) (s : σ) (repo user : String) :
    (ScanEnds index (Chunk.idStart user repo) firstCursor s → ∃ limit result o,
      result ≠ .error ⟨[], .endless⟩ ∧ o.exchanges.countP Exchange.isQuery ≤ maxRounds ∧
      ∀ fuel, limit ≤ fuel → outcome (deleteChunks index.observed fuel repo user) ⟨s, []⟩ = (result, o)) ∧
    (¬ScanEnds index (Chunk.idStart user repo) firstCursor s → ∀ fuel, ∃ o,
      outcome (deleteChunks index.observed fuel repo user) ⟨s, []⟩ = (.error ⟨[], .endless⟩, o) ∧
      o.exchanges.length = fuel) := by
  constructor
  · intro hends
    obtain ⟨limit, listed, _, hall⟩ := (hends.observed []).outcome_listIds
    have hsame : ∀ fuel, limit ≤ fuel → outcome (deleteChunks index.observed fuel repo user) ⟨s, []⟩ =
        outcome (deleteChunks index.observed limit repo user) ⟨s, []⟩ := by
      intro fuel hfuel
      exact outcome_deleteChunks_congr ((hall fuel hfuel).trans (hall limit le_rfl).symm)
    obtain ⟨o, houtcome, hqueries, hspent⟩ := exchanges_deleteChunks index s limit repo user
    refine ⟨limit, _, o, fun hendless => ?_, hqueries, fun fuel hfuel => (hsame fuel hfuel).trans houtcome⟩
    -- an endless deletion would have spent a larger limit as well
    obtain ⟨o', houtcome', _, hspent'⟩ := exchanges_deleteChunks index s (limit + 1) repo user
    have heq := houtcome'.symm.trans ((hsame (limit + 1) (Nat.le_succ limit)).trans houtcome)
    rw [Prod.mk.injEq] at heq
    obtain ⟨hresult, rfl⟩ := heq
    have hlength := hspent hendless
    rw [hspent' (hresult.trans hendless)] at hlength
    omega
  · intro hends fuel
    have hunlisted : (outcome (listIds index (Chunk.idStart user repo) fuel firstCursor) s).1 = .ok none := by
      by_contra hlisted
      exact hends (scanEnds_of_listed hlisted)
    have hendless := outcome_deleteChunks_of_unlisted hunlisted
    obtain ⟨o, houtcome, _, hspent⟩ := exchanges_deleteChunks index s fuel repo user
    exact ⟨o, hendless ▸ houtcome, hspent hendless⟩

/-- An index whose only answer to a range, again and again, is a page with a further cursor. -/
def turningPages : Recorded where
  upserts := []
  queries := []
  deletes := []
  ranges := [.ok ⟨[], some "1"⟩]
  requests := []

theorem not_scanEnds_of_ranges {start cursor : String} {s : Recorded} (hs : s.ranges = turningPages.ranges) :
    ¬ScanEnds Recorded.index start cursor s := by
  have hanswer : ∀ {cursor : String} {s : Recorded}, s.ranges = turningPages.ranges →
      ∃ s', outcome (Recorded.index.range ⟨cursor, pageSize, some start⟩) s = (.ok ⟨[], some "1"⟩, s') ∧
        s'.ranges = turningPages.ranges := by
    rintro cursor ⟨_, _, _, _, _⟩ rfl
    exact ⟨_, rfl, rfl⟩
  intro h
  induction h with
  | failed hrange =>
      obtain ⟨s', hok, _⟩ := hanswer hs
      cases hrange.symm.trans hok
  | last hrange hlast =>
      obtain ⟨s', hok, _⟩ := hanswer hs
      cases hrange.symm.trans hok
      cases hlast
  | further hrange hnext hmore hlater ih =>
      obtain ⟨s', hok, hs'⟩ := hanswer hs
      cases hrange.symm.trans hok
      exact ih hs'

/-- An index whose first page is the last one. -/
def onePage : Recorded := { turningPages with ranges := [.ok ⟨[], none⟩] }

theorem deletion_ends_onePage :
    (∃ limit result o, result ≠ .error ⟨[], .endless⟩ ∧ o.exchanges.countP Exchange.isQuery ≤ maxRounds ∧
      ∀ fuel, limit ≤ fuel →
        outcome (deleteChunks Recorded.index.observed fuel "acme/app" "u1") ⟨onePage, []⟩ = (result, o)) ∧
    ∀ fuel, ∃ o, outcome (deleteChunks Recorded.index.observed fuel "acme/app" "u1") ⟨turningPages, []⟩ =
        (.error ⟨[], .endless⟩, o) ∧ o.exchanges.length = fuel :=
  ⟨(deletion_ends Recorded.index onePage "acme/app" "u1").1 (.last rfl rfl),
    (deletion_ends Recorded.index turningPages "acme/app" "u1").2 (not_scanEnds_of_ranges rfl)⟩

/-- No limit on pages is enough where they turn in a circle. -/
theorem deletion_endless_turningPages :
    ¬∃ fuel, (outcome (deleteChunks Recorded.index fuel "acme/app" "u1") turningPages).1 ≠
      .error ⟨[], .endless⟩ := by
  rintro ⟨fuel, hends⟩
  refine hends (outcome_deleteChunks_of_unlisted ?_)
  by_contra hlisted
  exact not_scanEnds_of_ranges rfl (scanEnds_of_listed hlisted)

end SourceIndex.VectorIndex
