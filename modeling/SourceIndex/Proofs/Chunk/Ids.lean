import SourceIndex.Chunk

/-! The ids of built chunks. A namespace has sixteen digits whatever it is hashed from, so of two
namespaces that both start one id neither is longer: an id starts with the namespace of a user and a
repository exactly if it was made for a user and a repository of that namespace. -/

namespace SourceIndex

namespace Sha256

theorem length_wordDigits (w : UInt32) : (wordDigits w).length = 8 := by
  rw [wordDigits, List.length_map, List.length_range]

/-- Every digest has 64 digits. -/
theorem length_hexDigest (message : List UInt8) : (hexDigest message).length = 64 := by
  simp [hexDigest, words, length_wordDigits]

end Sha256

namespace Chunk

theorem length_fieldHash (fields : List String) {digits : Nat} (h : digits ≤ 64) :
    (fieldHash fields digits).length = digits := by
  rw [fieldHash, List.length_take, Sha256.length_hexDigest]
  exact Nat.min_eq_left h

theorem length_namespaceOf (user repo : String) : (namespaceOf user repo).toList.length = 16 := by
  rw [namespaceOf, String.toList_ofList]
  exact length_fieldHash [user, repo] (by decide)

theorem toList_idStart (user repo : String) :
    (idStart user repo).toList = (namespaceOf user repo).toList ++ ['-'] :=
  String.toList_append

theorem toList_idFor (user repo path name : String) (kind : EntityKind) :
    (idFor user repo path name kind).toList =
      (idStart user repo).toList ++ fieldHash (entityFields user repo path name kind) entityDigits := by
  rw [idFor, String.toList_append, String.toList_ofList]

theorem idStart_inj {user repo user' repo' : String} :
    idStart user repo = idStart user' repo' ↔ namespaceOf user repo = namespaceOf user' repo' := by
  rw [← String.toList_inj, toList_idStart, toList_idStart, List.append_left_inj, String.toList_inj]

/-- An id starts as given for a user and a repository if and only if its namespace is theirs. -/
theorem idStart_isPrefixOf_idFor (user repo user' repo' path name : String) (kind : EntityKind) :
    (idStart user repo).toList.isPrefixOf (idFor user' repo' path name kind).toList = true ↔
      namespaceOf user repo = namespaceOf user' repo' := by
  have hlength : (idStart user repo).toList.length = (idStart user' repo').toList.length := by
    rw [toList_idStart, toList_idStart, List.length_append, List.length_append, length_namespaceOf,
      length_namespaceOf]
  rw [List.isPrefixOf_iff_prefix, toList_idFor, ← idStart_inj]
  constructor
  · intro hprefix
    have hbelow := List.prefix_of_prefix_length_le hprefix (List.prefix_append _ _)
      (Nat.le_of_eq hlength)
    exact String.toList_inj.mp (hbelow.eq_of_length hlength)
  · intro heq
    rw [heq]
    exact List.prefix_append _ _

/-! ### Built chunks -/

theorem mem_firstOfEach {seen : List String} {chunks : List Chunk} {chunk : Chunk}
    (h : chunk ∈ firstOfEach seen chunks) : chunk ∈ chunks := by
  induction chunks generalizing seen with
  | nil => exact h
  | cons a rest ih =>
      rw [firstOfEach] at h
      split at h
      · exact List.mem_cons_of_mem a (ih h)
      · rcases List.mem_cons.mp h with rfl | hmem
        · exact List.mem_cons_self
        · exact List.mem_cons_of_mem a (ih hmem)

/-- A built chunk is the chunk of one of the entities. -/
theorem mem_build {context : Context} {path : String} {entities : List Entity} {chunk : Chunk}
    (h : chunk ∈ build context path entities) :
    ∃ entity ∈ entities, chunk = ofEntity context path entity := by
  obtain ⟨entity, hmem, heq⟩ := List.mem_map.mp (mem_firstOfEach h)
  exact ⟨entity, hmem, heq.symm⟩

/-- Built chunks have the namespace of their user and repository. -/
theorem start_of_mem_build {context : Context} {path : String} {entities : List Entity} {chunk : Chunk}
    (h : chunk ∈ build context path entities) :
    (idStart context.user context.repo).toList.isPrefixOf chunk.id.toList = true := by
  obtain ⟨entity, _, rfl⟩ := mem_build h
  exact (idStart_isPrefixOf_idFor _ _ _ _ _ _ _).mpr rfl

end Chunk
end SourceIndex
