import SourceIndex.RepoName
import SourceIndex.Proofs.Chunk.Ids
import SourceIndex.Proofs.Text.Utf8

/-! Ids and what they stand for. The hashed bytes of a namespace and of an entity together determine the
user, the repository, the path, the name and the kind, although the separator may occur in users and names:
the namespace is parted at its last separator, which gives the user and the repository, and what follows
these in the bytes of the entity is parted at the first separator and at the last one. -/

namespace SourceIndex
open Text

/-! ### Parting a list at a separator -/

section
variable {α : Type} {a : α}

/-- Where no separator stands before the one shown, it is the first one. -/
theorem eq_and_eq_of_append_cons {left left' right right' : List α} (h : a ∉ left) (h' : a ∉ left')
    (heq : left ++ a :: right = left' ++ a :: right') : left = left' ∧ right = right' := by
  induction left generalizing left' with
  | nil =>
      cases left' with
      | nil => exact ⟨rfl, (List.cons.inj heq).2⟩
      | cons b left' => exact absurd (List.mem_cons.mpr (Or.inl (List.cons.inj heq).1)) h'
  | cons b left ih =>
      cases left' with
      | nil => exact absurd (List.mem_cons.mpr (Or.inl (List.cons.inj heq).1.symm)) h
      | cons b' left' =>
          obtain ⟨rfl, htail⟩ := List.cons.inj heq
          obtain ⟨rfl, hright⟩ := ih (List.not_mem_of_not_mem_cons h) (List.not_mem_of_not_mem_cons h') htail
          exact ⟨rfl, hright⟩

/-- Where no separator stands after the one shown, it is the last one. -/
theorem eq_and_eq_of_append_cons_last {left left' right right' : List α} (h : a ∉ right)
    (h' : a ∉ right') (heq : left ++ a :: right = left' ++ a :: right') :
    left = left' ∧ right = right' := by
  have hreverse : right.reverse ++ a :: left.reverse = right'.reverse ++ a :: left'.reverse := by
    simpa using congrArg List.reverse heq
  obtain ⟨hright, hleft⟩ := eq_and_eq_of_append_cons (mt List.mem_reverse.mp h)
    (mt List.mem_reverse.mp h') hreverse
  exact ⟨List.reverse_inj.mp hleft, List.reverse_inj.mp hright⟩

end

/-! ### Hexadecimal digits -/

/-- The digits are as many as stated, in hexadecimal and in lower case. -/
def IsHex (count : Nat) (digits : Chars) : Prop :=
  digits.length = count ∧ ∀ c ∈ digits, c ∈ "0123456789abcdef".toList

theorem Sha256.mem_hexDigest {message : List UInt8} {c : Char} (h : c ∈ hexDigest message) :
    c ∈ "0123456789abcdef".toList := by
  have hdigit : ∀ n < 16, hexDigit n ∈ "0123456789abcdef".toList := by decide
  obtain ⟨word, _, hword⟩ := List.mem_flatMap.mp h
  obtain ⟨i, _, rfl⟩ := List.mem_map.mp hword
  exact hdigit _ (Nat.mod_lt _ (by decide))

/-! ### Where the separator may stand -/

theorem Chunk.mem_of_separator_mem {s : Chars} (h : separator ∈ encode s) : '\x1f' ∈ s := by
  obtain ⟨c, hc, hvalue⟩ := exists_of_mem_encode (by decide) h
  have hchar : c = '\x1f' := Char.toNat_inj.mp hvalue
  exact hchar ▸ hc

theorem EntityKind.separator_not_mem_name (kind : EntityKind) :
    Chunk.separator ∉ encode kind.name.toList := by
  cases kind <;> decide

theorem EntityKind.name_injective {kind kind' : EntityKind} (h : kind.name = kind'.name) :
    kind = kind' := by
  cases kind <;> cases kind' <;> first | rfl | exact absurd h (by decide)

theorem Text.eq_append_of_splitFirst? {sep s before after : Chars}
    (h : splitFirst? sep s = some (before, after)) : s = before ++ sep ++ after := by
  induction s generalizing before with
  | nil =>
      rw [splitFirst?] at h
      split at h
      · rename_i hempty
        cases h
        rw [List.isEmpty_iff.mp hempty]
        rfl
      · cases h
  | cons c rest ih =>
      rw [splitFirst?] at h
      split at h
      · rename_i hprefix
        cases h
        exact (List.prefix_iff_eq_append.mp (List.isPrefixOf_iff_prefix.mp hprefix)).symm
      · obtain ⟨⟨before', after'⟩, hrest, hpair⟩ := Option.map_eq_some_iff.mp h
        cases hpair
        rw [ih hrest]
        rfl

/-- The full name of a repository holds no separator. -/
theorem RepoName.separator_not_mem {repo : String} (h : (ofFullName? repo).isSome = true) :
    Chunk.separator ∉ encode repo.toList := by
  have hpart : ∀ part : Chars, isPart part = true → '\x1f' ∉ part := by
    intro part hpart hmem
    simp only [isPart, Bool.and_eq_true] at hpart
    exact absurd (List.all_eq_true.mp hpart.2 _ hmem) (by decide)
  intro hmem
  have hchar := Chunk.mem_of_separator_mem hmem
  unfold ofFullName? at h
  split at h
  · rename_i owner name hsplit
    split at h
    · rename_i hparts
      rw [Bool.and_eq_true] at hparts
      rw [eq_append_of_splitFirst? hsplit, List.mem_append, List.mem_append] at hchar
      rcases hchar with (howner | hslash) | hname
      · exact hpart owner hparts.1 howner
      · exact absurd hslash (by decide)
      · exact hpart name hparts.2 hname
    · cases h
  · cases h

/-! ### Addresses -/

namespace Chunk

/-- What the id of a chunk stands for. -/
structure Address where
  user : String
  repo : String
  path : String
  name : String
  kind : EntityKind
  deriving DecidableEq, Repr

namespace Address

def id (a : Address) : String := idFor a.user a.repo a.path a.name a.kind

/-- What the ids of the user and the repository start with. -/
def start (a : Address) : String := idStart a.user a.repo

/-- The bytes that are hashed for the namespace. -/
def scopeBytes (a : Address) : List UInt8 := fieldBytes [a.user, a.repo]

/-- The bytes that are hashed for the entity. -/
def entityBytes (a : Address) : List UInt8 := fieldBytes (entityFields a.user a.repo a.path a.name a.kind)

/-- What is kept of the hash for the namespace. -/
def scopeHash (a : Address) : Chars := (Sha256.hexDigest a.scopeBytes).take 16

/-- What is kept of the hash for the entity. -/
def entityHash (a : Address) : Chars := (Sha256.hexDigest a.entityBytes).take 32

/-- Neither the repository nor the path holds the separator; user and name may. -/
structure Separable (a : Address) : Prop where
  repo : separator ∉ encode a.repo.toList
  path : separator ∉ encode a.path.toList

/-- The hash has no collision on what is hashed for two addresses. -/
structure CollisionFree (a b : Address) : Prop where
  scope : a.scopeHash = b.scopeHash → a.scopeBytes = b.scopeBytes
  entity : a.entityHash = b.entityHash → a.entityBytes = b.entityBytes

theorem scopeBytes_eq (a : Address) :
    a.scopeBytes = encode a.user.toList ++ separator :: encode a.repo.toList := by
  simp [scopeBytes, fieldBytes, List.intercalate]

theorem entityBytes_eq (a : Address) :
    a.entityBytes = encode a.user.toList ++ separator :: (encode a.repo.toList ++ separator ::
      (encode a.path.toList ++ separator :: (encode a.name.toList ++ separator ::
        encode a.kind.name.toList))) := by
  simp [entityBytes, entityFields, fieldBytes, List.intercalate]

section
variable {a b : Address}

theorem user_repo_eq_of_scopeBytes (ha : a.Separable) (hb : b.Separable)
    (h : a.scopeBytes = b.scopeBytes) : a.user = b.user ∧ a.repo = b.repo := by
  rw [scopeBytes_eq, scopeBytes_eq] at h
  obtain ⟨huser, hrepo⟩ := eq_and_eq_of_append_cons_last ha.repo hb.repo h
  exact ⟨eq_of_encode_toList huser, eq_of_encode_toList hrepo⟩

theorem eq_of_bytes (ha : a.Separable) (hb : b.Separable) (hscope : a.scopeBytes = b.scopeBytes)
    (hentity : a.entityBytes = b.entityBytes) : a = b := by
  obtain ⟨huser, hrepo⟩ := user_repo_eq_of_scopeBytes ha hb hscope
  -- What precedes the path is the same now; the path ends at the next separator, the name at the last.
  rw [entityBytes_eq, entityBytes_eq, huser, hrepo] at hentity
  have hrest := List.cons_inj_right _ |>.mp (List.append_cancel_left hentity)
  have hafterRepo := List.cons_inj_right _ |>.mp (List.append_cancel_left hrest)
  obtain ⟨hpath, hafterPath⟩ := eq_and_eq_of_append_cons ha.path hb.path hafterRepo
  obtain ⟨hname, hkind⟩ := eq_and_eq_of_append_cons_last a.kind.separator_not_mem_name
    b.kind.separator_not_mem_name hafterPath
  obtain ⟨user, repo, path, name, kind⟩ := a
  obtain ⟨user', repo', path', name', kind'⟩ := b
  simp only at huser hrepo hpath hname hkind
  rw [huser, hrepo, eq_of_encode_toList hpath, eq_of_encode_toList hname,
    EntityKind.name_injective (eq_of_encode_toList hkind)]

end

theorem isHex_scopeHash (a : Address) : IsHex 16 a.scopeHash :=
  ⟨length_fieldHash [a.user, a.repo] (by decide), fun _ hc => Sha256.mem_hexDigest (List.mem_of_mem_take hc)⟩

theorem isHex_entityHash (a : Address) : IsHex 32 a.entityHash :=
  ⟨length_fieldHash _ (by decide), fun _ hc => Sha256.mem_hexDigest (List.mem_of_mem_take hc)⟩

theorem namespaceOf_eq (a : Address) : namespaceOf a.user a.repo = String.ofList a.scopeHash := rfl

theorem toList_start (a : Address) : a.start.toList = a.scopeHash ++ ['-'] := by
  rw [start, toList_idStart, namespaceOf_eq, String.toList_ofList]

theorem toList_id (a : Address) : a.id.toList = a.start.toList ++ a.entityHash :=
  toList_idFor a.user a.repo a.path a.name a.kind

section
variable {a b : Address}

/-- Of two starts of ids neither is a longer form of the other. -/
theorem start_eq_of_prefix (h : a.start.toList <+: b.start.toList) : a.start = b.start := by
  refine String.toList_inj.mp (h.eq_of_length ?_)
  rw [toList_start, toList_start, List.length_append, List.length_append, (isHex_scopeHash a).1,
    (isHex_scopeHash b).1]

theorem isPrefixOf_id_iff :
    b.start.toList.isPrefixOf a.id.toList = true ↔ b.scopeHash = a.scopeHash := by
  rw [← String.ofList_inj, ← namespaceOf_eq, ← namespaceOf_eq]
  exact idStart_isPrefixOf_idFor b.user b.repo a.user a.repo a.path a.name a.kind

theorem eq_of_id_eq (ha : a.Separable) (hb : b.Separable) (hfree : a.CollisionFree b)
    (h : a.id = b.id) : a = b := by
  have hstarts : b.start.toList.isPrefixOf a.id.toList = true := by
    rw [h]
    exact isPrefixOf_id_iff.mpr rfl
  have hscope : a.scopeHash = b.scopeHash := (isPrefixOf_id_iff.mp hstarts).symm
  have hlist := congrArg String.toList h
  rw [toList_id, toList_id, toList_start, toList_start, hscope] at hlist
  have hentity : a.entityHash = b.entityHash := List.append_cancel_left hlist
  exact eq_of_bytes ha hb (hfree.scope hscope) (hfree.entity hentity)

theorem isPrefixOf_id_iff_of_collisionFree (ha : a.Separable) (hb : b.Separable)
    (hfree : a.CollisionFree b) :
    b.start.toList.isPrefixOf a.id.toList = true ↔ a.user = b.user ∧ a.repo = b.repo := by
  rw [isPrefixOf_id_iff]
  constructor
  · intro hscope
    exact user_repo_eq_of_scopeBytes ha hb (hfree.scope hscope.symm)
  · rintro ⟨huser, hrepo⟩
    rw [scopeHash, scopeHash, scopeBytes, scopeBytes, huser, hrepo]

end

end Address

/-- An id is the namespace of its user and repository and the digits of its entity, whatever these hold, and it starts
with the namespace of just those users and repositories that share its hash. What is hashed for two addresses tells them
apart, if neither their repositories nor their paths hold the separator, so that their ids do wherever the hash has no
collision. -/
theorem address_of_id (a b : Address) :
    (∀ repo, (RepoName.ofFullName? repo).isSome = true → separator ∉ encode repo.toList) ∧
      (IsHex 16 a.scopeHash ∧ a.start.toList = a.scopeHash ++ ['-']) ∧
      (IsHex 32 a.entityHash ∧ a.id.toList = a.start.toList ++ a.entityHash) ∧
      (b.start.toList.isPrefixOf a.id.toList = true ↔ b.scopeHash = a.scopeHash) ∧
      (a.start.toList <+: b.start.toList → a.start = b.start) ∧
      (a.Separable → b.Separable →
        (a.scopeBytes = b.scopeBytes → a.entityBytes = b.entityBytes → a = b) ∧
        (a.CollisionFree b → (a.id = b.id → a = b) ∧
          (b.start.toList.isPrefixOf a.id.toList = true ↔ a.user = b.user ∧ a.repo = b.repo))) := by
  refine ⟨fun _ => RepoName.separator_not_mem, ⟨a.isHex_scopeHash, a.toList_start⟩,
    ⟨a.isHex_entityHash, a.toList_id⟩, Address.isPrefixOf_id_iff, Address.start_eq_of_prefix, fun ha hb => ?_⟩
  refine ⟨Address.eq_of_bytes ha hb, fun hfree => ?_⟩
  exact ⟨Address.eq_of_id_eq ha hb hfree, Address.isPrefixOf_id_iff_of_collisionFree ha hb hfree⟩

/-- A separator in a user and one in a name: the bytes of the entities are the same, yet the ids differ, as
the namespaces do. -/
theorem address_of_id_shifted :
    Address.Separable ⟨"u", "a/b", "c/d", "e\x1ff", .file⟩ ∧
      Address.Separable ⟨"u\x1fa/b", "c/d", "e", "f", .file⟩ ∧
      Address.entityBytes ⟨"u", "a/b", "c/d", "e\x1ff", .file⟩ =
        Address.entityBytes ⟨"u\x1fa/b", "c/d", "e", "f", .file⟩ ∧
      Address.id ⟨"u", "a/b", "c/d", "e\x1ff", .file⟩ ≠
        Address.id ⟨"u\x1fa/b", "c/d", "e", "f", .file⟩ := by
  have ha : Address.Separable ⟨"u", "a/b", "c/d", "e\x1ff", .file⟩ := ⟨by decide, by decide⟩
  have hb : Address.Separable ⟨"u\x1fa/b", "c/d", "e", "f", .file⟩ := ⟨by decide, by decide⟩
  have hbytes : Address.entityBytes ⟨"u", "a/b", "c/d", "e\x1ff", .file⟩ =
      Address.entityBytes ⟨"u\x1fa/b", "c/d", "e", "f", .file⟩ := by decide
  have hscope : Address.scopeHash ⟨"u", "a/b", "c/d", "e\x1ff", .file⟩ ≠
      Address.scopeHash ⟨"u\x1fa/b", "c/d", "e", "f", .file⟩ := by decide +kernel
  have hfree : Address.CollisionFree ⟨"u", "a/b", "c/d", "e\x1ff", .file⟩
      ⟨"u\x1fa/b", "c/d", "e", "f", .file⟩ := ⟨fun h => absurd h hscope, fun _ => hbytes⟩
  obtain ⟨_, _, _, _, _, hseparable⟩ := address_of_id ⟨"u", "a/b", "c/d", "e\x1ff", .file⟩
    ⟨"u\x1fa/b", "c/d", "e", "f", .file⟩
  obtain ⟨_, hids⟩ := hseparable ha hb
  exact ⟨ha, hb, hbytes, fun h => absurd ((hids hfree).1 h) (by decide)⟩

end Chunk

end SourceIndex
