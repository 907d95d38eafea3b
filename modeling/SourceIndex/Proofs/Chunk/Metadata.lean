import SourceIndex.Chunk.Metadata

/-! What a stored JSON value says about the repository and the user of a chunk. Decoding takes the value
of a field from the object that is decoded and from nowhere else, so metadata that is written and read
again names the repository and the user that it was written with; and so do the fields that a filter
looks at. -/

namespace SourceIndex

namespace Json

theorem string_of_toNode {json : Json} {s : String} (h : json.toNode = .string s) :
    json = .string s := by
  cases json with
  | string s' =>
      rw [toNode, Node.string.injEq] at h
      rw [h]
  | null | bool _ | number _ | array _ | object _ => cases h

theorem mem_of_mem_fieldNodes {fields : List (String × Json)} {key : String} {node : Node}
    (h : (some key, node) ∈ fieldNodes fields) : ∃ json, (key, json) ∈ fields ∧ json.toNode = node := by
  induction fields with
  | nil => cases h
  | cons field rest ih =>
      obtain ⟨name, json⟩ := field
      rw [fieldNodes] at h
      rcases List.mem_cons.mp h with heq | hmem
      · cases heq
        exact ⟨json, List.mem_cons_self, rfl⟩
      · obtain ⟨found, hfound, hnode⟩ := ih hmem
        exact ⟨found, List.mem_cons_of_mem _ hfound, hnode⟩

namespace Decoder

theorem bind_ok {α β : Type} {result : Except Fault α} {next : α → Except Fault β} {b : β}
    (h : result >>= next = .ok b) : ∃ a, result = .ok a ∧ next a = .ok b := by
  cases result with
  | error fault => cases h
  | ok a => exact ⟨a, rfl, h⟩

theorem string_ok {depth : Nat} {node : Node} {s : String} (h : Decoder.string depth node = .ok s) :
    node = .string s := by
  cases node with
  | string s' =>
      cases h
      rfl
  | null | bool _ | number _ | hugeNumber | halfText | array _ _ | object _ _ | broken => cases h

/-- What is found for a field stands in the object. -/
theorem mem_of_recordFields {known : List Field} {depth : Nat} {fields : List (Option String × Node)}
    {key : String} {node : Node} :
    ∀ {found found' : List (String × Node)}, recordFields known depth fields found = .ok found' →
      found'.lookup key = some node → (some key, node) ∈ fields ∨ found.lookup key = some node := by
  induction fields with
  | nil =>
      intro found found' h hlook
      cases h
      exact Or.inr hlook
  | cons field rest ih =>
      obtain ⟨name, value⟩ := field
      intro found found' h hlook
      cases name with
      | none => cases h
      | some name =>
          rw [recordFields] at h
          split at h
          · split at h
            · exact (ih h hlook).imp_left (List.mem_cons_of_mem _)
            · cases h
          · split at h
            · cases h
            · obtain ⟨_, _, h⟩ := bind_ok h
              rcases ih h hlook with hmem | hlater
              · exact Or.inl (List.mem_cons_of_mem _ hmem)
              · rw [List.lookup_cons] at hlater
                cases hname : key == name with
                | true =>
                    rw [hname] at hlater
                    obtain rfl : key = name := by simpa using hname
                    cases hlater
                    exact Or.inl List.mem_cons_self
                | false =>
                    rw [hname] at hlater
                    exact Or.inr hlater

theorem mem_of_record {known : List Field} {depth : Nat} {fields : List (Option String × Node)}
    {found : Record} {name s : String}
    (h : record known depth (.object fields true) = .ok found)
    (hget : found.get name Decoder.string = .ok s) : (some name, Node.string s) ∈ fields := by
  cases depth with
  | zero => cases h
  | succ depth =>
      rw [record] at h
      obtain ⟨nodes, hnodes, h⟩ := bind_ok h
      split at h
      · cases h
      · split at h
        · cases h
          rw [Record.get] at hget
          split at hget
          · next hlook =>
              rw [string_ok hget] at hlook
              rcases mem_of_recordFields hnodes hlook with hmem | hnone
              · exact hmem
              · cases hnone
          · cases hget
        · cases h

end Decoder
end Json

namespace Chunk.Metadata
open Json Json.Decoder

theorem decoder_ok {depth : Nat} {node : Node} {m : Metadata} (h : decoder depth node = .ok m) :
    ∃ found, record fields depth node = .ok found ∧
      found.get repoField Decoder.string = .ok m.repo ∧
      found.get userField Decoder.string = .ok m.user := by
  rw [decoder] at h
  obtain ⟨found, hrecord, h⟩ := bind_ok h
  obtain ⟨repo, hrepo, h⟩ := bind_ok h
  obtain ⟨user, huser, h⟩ := bind_ok h
  iterate 13 obtain ⟨_, _, h⟩ := bind_ok h
  cases h
  exact ⟨found, hrecord, hrepo, huser⟩

/-- Metadata that is read from an object has its repository and its user from the fields for them. -/
theorem mem_of_ofJson? {values : List (String × Json)} {m : Metadata}
    (h : ofJson? (.object values) = some m) :
    (repoField, Json.string m.repo) ∈ values ∧ (userField, Json.string m.user) ∈ values := by
  rw [ofJson?, toNode] at h
  cases hdecode : decoder maxDepth (.object (fieldNodes values) true) with
  | error fault =>
      rw [hdecode] at h
      cases h
  | ok m' =>
      rw [hdecode] at h
      cases h
      obtain ⟨found, hrecord, hrepo, huser⟩ := decoder_ok hdecode
      obtain ⟨repo, hmemRepo, hnodeRepo⟩ := mem_of_mem_fieldNodes (mem_of_record hrecord hrepo)
      obtain ⟨user, hmemUser, hnodeUser⟩ := mem_of_mem_fieldNodes (mem_of_record hrecord huser)
      rw [string_of_toNode hnodeRepo] at hmemRepo
      rw [string_of_toNode hnodeUser] at hmemUser
      exact ⟨hmemRepo, hmemUser⟩

/-- Metadata that is written and read again names its repository and its user. -/
theorem scope_of_ofJson?_toJson {m m' : Metadata} (h : ofJson? m.toJson = some m') :
    m'.repo = m.repo ∧ m'.user = m.user := by
  obtain ⟨hrepo, huser⟩ := mem_of_ofJson? h
  constructor
  · simpa [repoField, userField] using hrepo
  · simpa [repoField, userField] using huser

@[simp] theorem stringField?_repo (m : Metadata) : m.toJson.stringField? repoField = some m.repo := rfl

@[simp] theorem stringField?_user (m : Metadata) : m.toJson.stringField? userField = some m.user := rfl

end Chunk.Metadata
end SourceIndex
