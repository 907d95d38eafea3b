import SourceIndex.Proofs.Chunk.RoundTrip
import SourceIndex.Proofs.VectorIndex.Isolation
import SourceIndex.Proofs.VectorIndex.Listing
import SourceIndex.Proofs.VectorIndex.Ranking

/-! Searching for what was stored. Chunks that were built from entities and stored, however many times
and by whomever, are found by a search in their repository: of each id the chunk that was stored last,
with the metadata that it had then. The hits are the ranking of the matches, decoded one by one; as no
metadata of a built chunk is lost in its JSON form, no hit is skipped, and a smaller number of wanted
hits cuts the list. -/

namespace SourceIndex.VectorIndex
open Step VectorIndex.Filter Chunk.Metadata

/-! ### Storing -/

/-- The entities of a file, stored for a user and a repository. -/
structure Upload where
  context : Chunk.Context
  path : String
  entities : List Entity

def Upload.chunks (upload : Upload) : List Chunk :=
  Chunk.build upload.context upload.path upload.entities

/-- The line numbers of all entities fit into 64 bits. -/
def Upload.Fits (upload : Upload) : Prop :=
  ∀ entity ∈ upload.entities, entity.startLine ≤ Text.maxWord64 ∧ entity.endLine ≤ Text.maxWord64

/-- All chunks of uploads, in the order in which they are stored. -/
def chunksOf (uploads : List Upload) : List Chunk := uploads.flatMap Upload.chunks

theorem chunksOf_cons (upload : Upload) (rest : List Upload) :
    chunksOf (upload :: rest) = upload.chunks ++ chunksOf rest := List.flatMap_cons

/-- The chunk that was stored last under an id. -/
def lastChunk? (uploads : List Upload) (id : String) : Option Chunk :=
  (chunksOf uploads).findRev? (·.id == id)

/-- Store the chunks of uploads, one upload after the other. -/
def upsertUploads {σ : Type} (index : VectorIndex σ) : List Upload → Action σ Unit
  | [] => pure ()
  | upload :: rest => do
    upsertChunks index upload.chunks
    upsertUploads index rest

theorem fits_of_mem_chunksOf {uploads : List Upload} (hfits : ∀ upload ∈ uploads, upload.Fits)
    {chunk : Chunk} (h : chunk ∈ chunksOf uploads) : chunk.metadata.Fits := by
  obtain ⟨upload, hupload, hchunk⟩ := List.mem_flatMap.mp h
  obtain ⟨entity, hentity, rfl⟩ := Chunk.mem_build hchunk
  exact hfits upload hupload entity hentity

theorem findRev?_map_recordOf (chunks : List Chunk) (id : String) :
    (chunks.map recordOf).findRev? (·.id == id) = (chunks.findRev? (·.id == id)).map recordOf := by
  rw [List.findRev?_eq_find?_reverse, List.findRev?_eq_find?_reverse, ← List.map_reverse,
    List.find?_map]
  rfl

namespace Local

theorem outcome_upsertUploads (uploads : List Upload) {index : Local} (hquiet : index.Quiet) :
    ∃ calls, outcome (upsertUploads Local.index uploads) index =
      (.ok (), index.after calls (insertAll index.records ((chunksOf uploads).map recordOf))) := by
  induction uploads generalizing index with
  | nil => exact ⟨[], by rw [upsertUploads, outcome_pure]; exact congrArg _ (after_nil index).symm⟩
  | cons upload rest ih =>
      obtain ⟨calls, hfirst⟩ := outcome_upsertChunks hquiet upload.chunks
      obtain ⟨calls', hrest⟩ := ih (hquiet.after calls
        (insertAll index.records (upload.chunks.map recordOf)))
      refine ⟨calls ++ calls', ?_⟩
      rw [upsertUploads, outcome_bind_of_ok hfirst, hrest, after_after, after_records,
        chunksOf_cons, List.map_append, insertAll_append]

/-- The records that uploads leave in an index that was empty. -/
def recordsOf (uploads : List Upload) : List Record :=
  insertAll [] ((chunksOf uploads).map recordOf)

theorem sorted_recordsOf (uploads : List Upload) : Sorted (recordsOf uploads) :=
  Sorted.insertAll List.Pairwise.nil _

/-- The record of an id is that of the chunk stored last under it. -/
theorem mem_recordsOf {uploads : List Upload} {r : Record} :
    r ∈ recordsOf uploads ↔ ∃ chunk, lastChunk? uploads r.id = some chunk ∧ r = recordOf chunk := by
  rw [mem_iff_lookup (sorted_recordsOf uploads), recordsOf, lookup_insertAll, findRev?_map_recordOf,
    lookup, List.find?_nil, Option.or_none, Option.map_eq_some_iff]
  exact exists_congr fun chunk => and_congr_right fun _ => eq_comm

end Local

/-! ### Hits -/

theorem of_hit?_eq_some {found : Match} {hit : Hit} (h : found.hit? = some hit) :
    hit.id = found.id ∧ hit.score = found.score := by
  obtain ⟨metadata, _, rfl⟩ := Option.map_eq_some_iff.mp h
  exact ⟨rfl, rfl⟩

/-- How well a chunk matches a text. -/
def scoreOf (text : String) (chunk : Chunk) : Score :=
  Local.overlap (Text.words (Text.lowercase text.toList)) chunk.data

/-- The match of a stored chunk in a search for a text. -/
def foundOf (text : String) (chunk : Chunk) : Match :=
  ⟨chunk.id, scoreOf text chunk, some chunk.metadata.toJson⟩

/-- The hit of a chunk in a search for a text. -/
def hitOf (text : String) (chunk : Chunk) : Hit := ⟨chunk.id, scoreOf text chunk, chunk.metadata⟩

theorem hit?_foundOf {chunk : Chunk} (hfits : chunk.metadata.Fits) (text : String) :
    (foundOf text chunk).hit? = some (hitOf text chunk) := by
  rw [Match.hit?, foundOf, Option.bind_some, ofJson?_toJson hfits]
  rfl

theorem filterMap_take {α β : Type} {f : α → Option β} {items : List α}
    (h : ∀ a ∈ items, (f a).isSome) (n : Nat) :
    (items.take n).filterMap f = (items.filterMap f).take n := by
  induction items generalizing n with
  | nil => simp
  | cons a rest ih =>
      obtain ⟨hfirst, hrest⟩ := List.forall_mem_cons.mp h
      obtain ⟨b, hb⟩ := Option.isSome_iff_exists.mp hfirst
      cases n with
      | zero => rfl
      | succ n => simp [hb, ih hrest]

/-- The hits are the chunks stored last of a repository and a user, each once, the best first and those
of one score by id. -/
structure Answers (uploads : List Upload) (text repo user : String) (hits : List Hit) : Prop where
  mem_iff : ∀ hit, hit ∈ hits ↔ ∃ chunk, lastChunk? uploads hit.id = some chunk ∧
    chunk.metadata.repo = repo ∧ chunk.metadata.user = user ∧ hit = hitOf text chunk
  once : (hits.map Hit.id).Nodup
  ranked : hits.Pairwise fun a b =>
    b.score.le a.score = true ∧ (a.score.le b.score = true → a.id < b.id)

namespace Local

/-- The matches of a search for all that is found. -/
def searched (records : List Record) (text repo user : String) : List Match :=
  ranking records (scopeClauses repo user) (searchQuery text repo user records.length)

theorem length_searched_le (records : List Record) (text repo user : String) :
    (searched records text repo user).length ≤ records.length := by
  rw [searched, length_ranking]
  exact List.length_filter_le _ _

/-- Any number of hits is decoded from the first of all matches. -/
theorem outcome_search {index : Local} (hquiet : index.Quiet) {repo user : String}
    (hclauses : parse? (scope repo user) = some (scopeClauses repo user)) (text : String) (topK : Nat) :
    outcome (search Local.index text repo user topK) index =
      (.ok (((searched index.records text repo user).take topK).filterMap Match.hit?),
        index.after [.query (some (scope repo user))] index.records) := by
  have hfilter : (searchQuery text repo user topK).filter = some (scope repo user) := rfl
  have hquery : outcome (Local.query (searchQuery text repo user topK)) index = _ :=
    outcome_query hquiet hfilter hclauses
  have hcall : Local.index.query (searchQuery text repo user topK) =
      Local.query (searchQuery text repo user topK) := rfl
  rw [search, outcome_bind, outcome_attempt, hcall, hquery, matchesOf_eq_take]
  rfl

section Uploads

variable {uploads : List Upload} {text repo user : String}

/-- What is found is the chunk stored last under its id, if that is of the repository and the user. -/
theorem mem_searched {found : Match} :
    found ∈ searched (recordsOf uploads) text repo user ↔
      ∃ chunk, lastChunk? uploads found.id = some chunk ∧ chunk.metadata.repo = repo ∧
        chunk.metadata.user = user ∧ found = foundOf text chunk := by
  rw [searched, mem_ranking]
  constructor
  · rintro ⟨r, hr, hholds, rfl⟩
    obtain ⟨chunk, hlast, rfl⟩ := mem_recordsOf.mp hr
    obtain ⟨hrepo, huser⟩ := holds_scopeClauses.mp hholds
    refine ⟨chunk, hlast, ?_, ?_, rfl⟩
    · exact Option.some.inj ((stringField?_repo chunk.metadata).symm.trans hrepo)
    · exact Option.some.inj ((stringField?_user chunk.metadata).symm.trans huser)
  · rintro ⟨chunk, hlast, rfl, rfl, rfl⟩
    refine ⟨recordOf chunk, mem_recordsOf.mpr ⟨chunk, hlast, rfl⟩, ?_, rfl⟩
    exact holds_scopeClauses.mpr ⟨stringField?_repo _, stringField?_user _⟩

/-- Every match is decoded to the hit of its chunk. -/
theorem hit?_of_mem_searched (hfits : ∀ upload ∈ uploads, upload.Fits) {found : Match}
    (h : found ∈ searched (recordsOf uploads) text repo user) :
    ∃ chunk, lastChunk? uploads found.id = some chunk ∧ chunk.metadata.repo = repo ∧
      chunk.metadata.user = user ∧ found.hit? = some (hitOf text chunk) := by
  obtain ⟨chunk, hlast, hrepo, huser, rfl⟩ := mem_searched.mp h
  exact ⟨chunk, hlast, hrepo, huser, hit?_foundOf (fits_of_mem_chunksOf hfits (of_findRev? hlast).1) text⟩

variable (text repo user)

/-- The hits that are decoded from all matches are the chunks stored last. -/
theorem answers_searched (hfits : ∀ upload ∈ uploads, upload.Fits) :
    Answers uploads text repo user
      ((searched (recordsOf uploads) text repo user).filterMap Match.hit?) where
  mem_iff hit := by
    rw [List.mem_filterMap]
    constructor
    · rintro ⟨found, hfound, hhit⟩
      obtain ⟨chunk, hlast, hrepo, huser, hdecoded⟩ := hit?_of_mem_searched hfits hfound
      rw [← (of_hit?_eq_some hhit).1] at hlast
      exact ⟨chunk, hlast, hrepo, huser, Option.some.inj (hhit.symm.trans hdecoded)⟩
    · rintro ⟨chunk, hlast, hrepo, huser, rfl⟩
      have hfits' := fits_of_mem_chunksOf hfits (of_findRev? hlast).1
      exact ⟨foundOf text chunk, mem_searched.mpr ⟨chunk, hlast, hrepo, huser, rfl⟩,
        hit?_foundOf hfits' text⟩
  once := by
    rw [List.nodup_iff_pairwise_ne, List.pairwise_map, List.pairwise_filterMap]
    refine (List.pairwise_map.mp (ranking_ids_nodup (sorted_recordsOf uploads))).imp ?_
    intro a b hne hit hhit hit' hhit'
    rwa [(of_hit?_eq_some hhit).1, (of_hit?_eq_some hhit').1]
  ranked := by
    rw [List.pairwise_filterMap]
    refine (ranking_pairwise (sorted_recordsOf uploads)).imp ?_
    intro a b hranked hit hhit hit' hhit'
    obtain ⟨hid, hscore⟩ := of_hit?_eq_some hhit
    obtain ⟨hid', hscore'⟩ := of_hit?_eq_some hhit'
    rwa [hid, hscore, hid', hscore']

end Uploads

end Local

/-- Chunks that were built and stored in an empty index are found again. A search in a repository of a
user that wants as many hits as there are records answers with the chunks stored last of them, and one
that wants fewer with the first of these. -/
theorem search_uploads {uploads : List Upload} (hfits : ∀ upload ∈ uploads, upload.Fits)
    {repo user : String} (hprintable : ∀ c ∈ repo.toList ++ user.toList, Text.isControl c = false)
    (text : String) :
    ∃ index hits, outcome (upsertUploads Local.index uploads) Local.empty = (.ok (), index) ∧
      (∀ r, r ∈ index.records ↔ ∃ chunk, lastChunk? uploads r.id = some chunk ∧ r = recordOf chunk) ∧
      Answers uploads text repo user hits ∧
      (∀ topK, index.records.length ≤ topK →
        (outcome (search Local.index text repo user topK) index).1 = .ok hits) ∧
      ∀ topK, (outcome (search Local.index text repo user topK) index).1 = .ok (hits.take topK) := by
  have hclauses := parse?_scope_of_printable hprintable
  have hquiet : Local.empty.Quiet := rfl
  obtain ⟨calls, hstore⟩ := Local.outcome_upsertUploads uploads hquiet
  have hanswers := Local.answers_searched text repo user hfits
  generalize hhits : (Local.searched (Local.recordsOf uploads) text repo user).filterMap
    Match.hit? = hits at hanswers
  have hlength : hits.length ≤ (Local.recordsOf uploads).length := by
    rw [← hhits]
    exact Nat.le_trans (List.length_filterMap_le _ _) (Local.length_searched_le _ text repo user)
  have htake : ∀ topK, (outcome (search Local.index text repo user topK)
      (Local.empty.after calls (Local.recordsOf uploads))).1 = .ok (hits.take topK) := by
    intro topK
    rw [Local.outcome_search (hquiet.after calls _) hclauses, Local.after_records, filterMap_take, hhits]
    intro found hfound
    obtain ⟨chunk, _, _, _, hdecoded⟩ := Local.hit?_of_mem_searched hfits hfound
    rw [hdecoded, Option.isSome_some]
  refine ⟨_, hits, hstore, fun r => Local.mem_recordsOf, hanswers, fun topK htopK => ?_, htake⟩
  exact (htake topK).trans (congrArg _ (List.take_of_length_le (Nat.le_trans hlength htopK)))

/-- Two users store a function of one repository each, and the first one does so twice. -/
def threeUploads : List Upload :=
  [⟨⟨"u1", "acme/app", "main"⟩, "src/lib.rs", [emptyFunction "f0"]⟩,
    ⟨⟨"u2", "acme/app", "main"⟩, "src/lib.rs", [emptyFunction "f0"]⟩,
    ⟨⟨"u1", "acme/app", "next"⟩, "src/lib.rs", [emptyFunction "f0"]⟩]

theorem search_threeUploads :
    ∃ index, ∃ hits : List Hit,
      outcome (upsertUploads Local.index threeUploads) Local.empty = (.ok (), index) ∧
      (outcome (search Local.index "f0" "acme/app" "u1" 10) index).1 = .ok (hits.take 10) ∧
      ∃ hit ∈ hits, hit.metadata.url = Chunk.fileUrl "acme/app" "next" "src/lib.rs" := by
  have hentities : ∀ upload ∈ threeUploads, upload.entities = [emptyFunction "f0"] := by
    simp [threeUploads]
  have hfits : ∀ upload ∈ threeUploads, upload.Fits := by
    intro upload hupload entity hentity
    rw [hentities upload hupload, List.mem_singleton] at hentity
    subst hentity
    exact ⟨by decide, by decide⟩
  have hprintable : ∀ c ∈ "acme/app".toList ++ "u1".toList, Text.isControl c = false :=
    isControl_of_all (by decide)
  obtain ⟨index, hits, hstore, _, hanswers, _, htake⟩ := search_uploads hfits hprintable "f0"
  refine ⟨index, hits, hstore, htake 10, ?_⟩
  generalize hchunk : Chunk.ofEntity ⟨"u1", "acme/app", "next"⟩ "src/lib.rs" (emptyFunction "f0") = chunk
  have hlast : lastChunk? threeUploads chunk.id = some chunk := by
    rw [← hchunk]
    decide +kernel
  refine ⟨hitOf "f0" chunk, (hanswers.mem_iff _).mpr ⟨chunk, hlast, ?_, ?_, rfl⟩, ?_⟩
  all_goals
    rw [← hchunk]
    rfl

end SourceIndex.VectorIndex
