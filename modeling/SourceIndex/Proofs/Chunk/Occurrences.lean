import SourceIndex.Proofs.Chunk.Ids
import SourceIndex.Proofs.Text.Distinct

/-! Which entities of a file become chunks. The search keeps the ids it has seen, so an entity is passed over
exactly if an earlier one has its id: what is built are the chunks of the first entities of their ids, in the
order of the entities, and no id is lost or stands twice. -/

namespace SourceIndex.Chunk

/-- The entity that metadata describe. -/
def Metadata.entity (m : Metadata) : Entity :=
  { kind := m.kind
    name := m.name
    startLine := m.startLine
    endLine := m.endLine
    content := m.content
    imports := m.imports
    exports := m.exports
    parent := m.parent
    calls := m.calls
    doc := m.doc }

section
variable {context : Context} {path : String}

/-- The chunk of an entity: it has the id of the entity and describes it with all its fields, beside the file
and those whose file it is. -/
structure IsOf (context : Context) (path : String) (entity : Entity) (chunk : Chunk) : Prop where
  id_eq : chunk.id = idOf context path entity
  entity_eq : chunk.metadata.entity = entity
  user_eq : chunk.metadata.user = context.user
  repo_eq : chunk.metadata.repo = context.repo
  path_eq : chunk.metadata.path = path

theorem isOf_ofEntity (context : Context) (path : String) (entity : Entity) :
    (ofEntity context path entity).IsOf context path entity where
  id_eq := rfl
  entity_eq := rfl
  user_eq := rfl
  repo_eq := rfl
  path_eq := rfl

/-- The entity of a numbered list comes before all others of its id. -/
def IsFirst (context : Context) (path : String) (numbered : List (Entity × Nat)) (one : Entity × Nat) : Prop :=
  ∀ earlier ∈ numbered, earlier.2 < one.2 → idOf context path earlier.1 ≠ idOf context path one.1

instance (context : Context) (path : String) (numbered : List (Entity × Nat)) :
    DecidablePred (IsFirst context path numbered) :=
  fun one => inferInstanceAs (Decidable (∀ earlier ∈ numbered, earlier.2 < one.2 →
    idOf context path earlier.1 ≠ idOf context path one.1))

/-- The first entity of each id with its position, in the order of the entities. -/
def firsts (context : Context) (path : String) (entities : List Entity) : List (Entity × Nat) :=
  entities.zipIdx.filter (IsFirst context path entities.zipIdx ·)

/-- An entity below the head is the first of its id if it is the first there and differs from the head. -/
theorem isFirst_cons {head : Entity} {n : Nat} {rest : List (Entity × Nat)} {one : Entity × Nat}
    (hlt : n < one.2) :
    IsFirst context path ((head, n) :: rest) one ↔
      idOf context path head ≠ idOf context path one.1 ∧ IsFirst context path rest one := by
  simp only [IsFirst, List.forall_mem_cons, hlt, forall_true_left]

theorem isFirst_head (head : Entity) (n : Nat) (rest : List Entity) :
    IsFirst context path ((head, n) :: rest.zipIdx (n + 1)) (head, n) := by
  intro earlier hearlier hlt
  rcases List.mem_cons.mp hearlier with rfl | hbelow
  · exact absurd hlt (Nat.lt_irrefl _)
  · have hge := (List.mem_zipIdx hbelow).1
    omega

/-- Of the entities whose ids were not seen before, the first of each id are kept. -/
theorem firstOfEach_eq (seen : List String) (entities : List Entity) (n : Nat) :
    firstOfEach seen (entities.map (ofEntity context path)) =
      ((entities.zipIdx n).filter fun one =>
        IsFirst context path (entities.zipIdx n) one ∧ idOf context path one.1 ∉ seen).map
          fun one => ofEntity context path one.1 := by
  induction entities generalizing seen n with
  | nil => rfl
  | cons head rest ih =>
      have hid : (ofEntity context path head).id = idOf context path head := rfl
      rw [List.map_cons, firstOfEach, hid, List.zipIdx_cons]
      by_cases hseen : idOf context path head ∈ seen
      · rw [if_pos (List.contains_iff_mem.mpr hseen), ih, List.filter_cons_of_neg (by simp [hseen])]
        refine congrArg (List.map _) (List.filter_congr fun one hone => ?_)
        have hlt := (List.mem_zipIdx hone).1
        rw [decide_eq_decide, isFirst_cons (by omega)]
        constructor
        · rintro ⟨hfirst, hnew⟩
          exact ⟨⟨fun heq => hnew (heq ▸ hseen), hfirst⟩, hnew⟩
        · rintro ⟨⟨_, hfirst⟩, hnew⟩
          exact ⟨hfirst, hnew⟩
      · rw [if_neg (fun h => hseen (List.contains_iff_mem.mp h)), ih,
          List.filter_cons_of_pos (by simpa using ⟨isFirst_head head n rest, hseen⟩), List.map_cons]
        refine congrArg (_ :: ·) (congrArg (List.map _) (List.filter_congr fun one hone => ?_))
        have hlt := (List.mem_zipIdx hone).1
        rw [decide_eq_decide, isFirst_cons (by omega), List.mem_cons, not_or, ne_comm, and_left_comm, and_assoc]

theorem build_eq (entities : List Entity) :
    build context path entities = (firsts context path entities).map fun one => ofEntity context path one.1 := by
  rw [build, firstOfEach_eq [] entities 0, firsts]
  simp only [List.not_mem_nil, not_false_eq_true, and_true]

theorem firsts_sorted (context : Context) (path : String) (entities : List Entity) :
    (firsts context path entities).Pairwise fun a b => a.2 < b.2 :=
  (Text.zipIdx_sorted entities 0).filter _

/-- Every id has a first entity. -/
theorem exists_first {entities : List Entity} {entity : Entity} {i : Nat} (h : (entity, i) ∈ entities.zipIdx) :
    ∃ one ∈ firsts context path entities, idOf context path one.1 = idOf context path entity := by
  induction i using Nat.strong_induction_on generalizing entity with
  | _ i ih =>
      by_cases hfirst : IsFirst context path entities.zipIdx (entity, i)
      · exact ⟨(entity, i), List.mem_filter.mpr ⟨h, by simpa using hfirst⟩, rfl⟩
      · simp only [IsFirst, not_forall, not_not] at hfirst
        obtain ⟨⟨earlier, j⟩, hmem, hlt, hid⟩ := hfirst
        obtain ⟨one, hone, heq⟩ := ih j hlt hmem
        exact ⟨one, hone, heq.trans hid⟩

/-- What is built of the entities of a file are the chunks of the first entities of their ids, in their order.
Each describes its entity, its id starts with the namespace of the user and repository, no id stands twice, and
the ids are those of the entities. -/
theorem build_firsts (context : Context) (path : String) (entities : List Entity) :
    List.Forall₂ (fun one chunk => chunk.IsOf context path one.1) (firsts context path entities)
        (build context path entities) ∧
      ((build context path entities).map Chunk.id).Nodup ∧
      (∀ id, id ∈ (build context path entities).map Chunk.id ↔ id ∈ entities.map (idOf context path)) ∧
      ∀ chunk ∈ build context path entities,
        (idStart context.user context.repo).toList <+: chunk.id.toList := by
  have hids : (build context path entities).map Chunk.id =
      (firsts context path entities).map fun one => idOf context path one.1 := by
    rw [build_eq, List.map_map]
    rfl
  refine ⟨?_, ?_, fun id => ⟨fun hid => ?_, fun hid => ?_⟩, fun chunk hchunk => ?_⟩
  · rw [build_eq, List.forall₂_map_right_iff, List.forall₂_same]
    exact fun one _ => isOf_ofEntity context path one.1
  · rw [hids]
    refine List.pairwise_map.mpr ((firsts_sorted context path entities).imp_of_mem fun {a b} ha hb hlt => ?_)
    have hfirst : IsFirst context path entities.zipIdx b := by simpa using (List.mem_filter.mp hb).2
    exact hfirst a (List.mem_filter.mp ha).1 hlt
  · obtain ⟨chunk, hchunk, rfl⟩ := List.mem_map.mp hid
    obtain ⟨entity, hentity, rfl⟩ := mem_build hchunk
    exact List.mem_map.mpr ⟨entity, hentity, rfl⟩
  · obtain ⟨entity, hentity, rfl⟩ := List.mem_map.mp hid
    obtain ⟨i, hi⟩ := List.getElem?_of_mem hentity
    obtain ⟨one, hone, heq⟩ := exists_first (List.mem_zipIdx_iff_getElem?.mpr hi)
    rw [hids]
    exact List.mem_map.mpr ⟨one, hone, heq⟩
  · exact List.isPrefixOf_iff_prefix.mp (start_of_mem_build hchunk)

end

end SourceIndex.Chunk
