import Mathlib.Tactic.SplitIfs
import SourceIndex.VectorIndex.Local

/-! The records of the index within the process as a map from ids. The list is sorted by id and holds
each id once; what is put in, replaced and removed is read off through the look-up by id, and two
sorted lists with equal look-ups are equal. -/

namespace SourceIndex.VectorIndex.Local

/-- Sorted by id, each id once. -/
def Sorted (records : List Record) : Prop := records.Pairwise fun a b => a.id < b.id

/-- The record of an id. -/
def lookup (id : String) (records : List Record) : Option Record := records.find? (·.id == id)

theorem id_of_lookup {id : String} {records : List Record} {r : Record}
    (h : lookup id records = some r) : r.id = id := by
  simpa using List.find?_some h

theorem mem_of_lookup {id : String} {records : List Record} {r : Record}
    (h : lookup id records = some r) : r ∈ records := List.mem_of_find?_eq_some h

theorem lookup_eq_none {id : String} {records : List Record} :
    lookup id records = none ↔ ∀ r ∈ records, r.id ≠ id := by
  simp [lookup]

theorem id_eq_of_not_lt {a b : String} (hab : ¬a < b) (hba : ¬b < a) : a = b :=
  String.le_antisymm (String.not_lt.mp hba) (String.not_lt.mp hab)

/-! ### Sorted lists -/

theorem Sorted.filter {records : List Record} (h : Sorted records) (p : Record → Bool) :
    Sorted (records.filter p) := List.Pairwise.filter p h

theorem lookup_of_mem {records : List Record} (hsorted : Sorted records) {r : Record}
    (hr : r ∈ records) : lookup r.id records = some r := by
  induction records with
  | nil => cases hr
  | cons a rest ih =>
      obtain ⟨hlt, hrest⟩ := List.pairwise_cons.mp hsorted
      rcases List.mem_cons.mp hr with rfl | hmem
      · simp [lookup]
      · have hne : (a.id == r.id) = false := by
          simpa using fun heq => String.lt_irrefl _ (heq ▸ hlt r hmem)
        rw [lookup, List.find?_cons, hne]
        exact ih hrest hmem

theorem eq_of_id_eq {records : List Record} (hsorted : Sorted records) {a b : Record}
    (ha : a ∈ records) (hb : b ∈ records) (h : a.id = b.id) : a = b := by
  have hlook := lookup_of_mem hsorted ha
  rw [h, lookup_of_mem hsorted hb] at hlook
  exact (Option.some.inj hlook).symm

theorem mem_iff_lookup {records : List Record} (hsorted : Sorted records) {r : Record} :
    r ∈ records ↔ lookup r.id records = some r :=
  ⟨lookup_of_mem hsorted, mem_of_lookup⟩

theorem lookup_filter {records : List Record} (hsorted : Sorted records) (p : Record → Bool)
    (id : String) : lookup id (records.filter p) = (lookup id records).filter p := by
  cases h : lookup id records with
  | none =>
      rw [lookup_eq_none] at h
      exact lookup_eq_none.mpr fun r hr => h r (List.mem_filter.mp hr).1
  | some r =>
      have hid := id_of_lookup h
      by_cases hp : p r = true
      · rw [Option.filter_some, if_pos hp, ← hid]
        exact lookup_of_mem (hsorted.filter p) (List.mem_filter.mpr ⟨mem_of_lookup h, hp⟩)
      · rw [Option.filter_some, if_neg hp, lookup_eq_none]
        intro a ha haid
        obtain ⟨hmem, hpa⟩ := List.mem_filter.mp ha
        have : a = r := eq_of_id_eq hsorted hmem (mem_of_lookup h) (haid.trans hid.symm)
        exact hp (this ▸ hpa)

theorem Sorted.ids_nodup {records : List Record} (h : Sorted records) :
    (records.map Record.id).Nodup := by
  refine List.Pairwise.imp ?_ (List.pairwise_map.mpr h)
  rintro a b hlt rfl
  exact String.lt_irrefl _ hlt

theorem Sorted.nodup {records : List Record} (h : Sorted records) : records.Nodup :=
  List.Pairwise.of_map Record.id (fun _ _ hne heq => hne (congrArg Record.id heq)) h.ids_nodup

/-- A sorted list is known by its look-ups. -/
theorem Sorted.ext {left right : List Record} (hleft : Sorted left) (hright : Sorted right)
    (h : ∀ id, lookup id left = lookup id right) : left = right := by
  have hmem : ∀ r, r ∈ left ↔ r ∈ right := fun r => by
    rw [mem_iff_lookup hleft, mem_iff_lookup hright, h]
  have hperm := (List.perm_ext_iff_of_nodup hleft.nodup hright.nodup).mpr hmem
  exact hperm.eq_of_pairwise (fun a b _ _ hab hba => absurd hba (String.lt_asymm hab)) hleft hright

/-! ### Putting in -/

theorem mem_insert {record r : Record} {records : List Record} (h : r ∈ insert record records) :
    r = record ∨ r ∈ records := by
  induction records with
  | nil => exact Or.inl (List.mem_singleton.mp h)
  | cons a rest ih =>
      rw [insert] at h
      split_ifs at h
      · exact List.mem_cons.mp h
      · rcases List.mem_cons.mp h with heq | hmem
        · exact Or.inl heq
        · exact Or.inr (List.mem_cons_of_mem a hmem)
      · rcases List.mem_cons.mp h with heq | hmem
        · exact Or.inr (heq ▸ List.mem_cons_self)
        · exact (ih hmem).imp_right (List.mem_cons_of_mem a)

theorem Sorted.insert {records : List Record} (h : Sorted records) (record : Record) :
    Sorted (insert record records) := by
  induction records with
  | nil => exact List.pairwise_singleton _ _
  | cons a rest ih =>
      obtain ⟨halt, hrest⟩ := List.pairwise_cons.mp h
      rw [Local.insert]
      split_ifs with hlt heq
      · refine List.pairwise_cons.mpr ⟨fun r hr => ?_, h⟩
        rcases List.mem_cons.mp hr with rfl | hmem
        · exact hlt
        · exact String.lt_trans hlt (halt r hmem)
      · exact List.pairwise_cons.mpr ⟨fun r hr => heq ▸ halt r hr, hrest⟩
      · refine List.pairwise_cons.mpr ⟨fun r hr => ?_, ih hrest⟩
        rcases mem_insert hr with rfl | hmem
        · exact Decidable.byContradiction fun hge => heq (id_eq_of_not_lt hlt hge)
        · exact halt r hmem

theorem lookup_insert_self (record : Record) (records : List Record) :
    lookup record.id (insert record records) = some record := by
  induction records with
  | nil => simp [Local.insert, lookup]
  | cons a rest ih =>
      rw [Local.insert]
      split_ifs with hlt heq
      · simp [lookup]
      · simp [lookup]
      · have hne : (a.id == record.id) = false := by simpa using Ne.symm heq
        rw [lookup, List.find?_cons, hne]
        exact ih

theorem lookup_insert_of_ne {id : String} {record : Record} (hne : id ≠ record.id)
    (records : List Record) : lookup id (insert record records) = lookup id records := by
  have hrecord : (record.id == id) = false := by simpa using Ne.symm hne
  induction records with
  | nil => simp [Local.insert, lookup, hrecord]
  | cons a rest ih =>
      rw [Local.insert]
      split_ifs with hlt heq
      · rw [lookup, List.find?_cons, hrecord, lookup]
      · have ha : (a.id == id) = false := by rwa [heq] at hrecord
        rw [lookup, lookup, List.find?_cons, List.find?_cons, hrecord, ha]
      · rw [lookup, lookup, List.find?_cons, List.find?_cons]
        split
        · rfl
        · exact ih

theorem insertAll_append (stored first second : List Record) :
    insertAll stored (first ++ second) = insertAll (insertAll stored first) second :=
  List.foldl_append

theorem Sorted.insertAll {stored : List Record} (h : Sorted stored) (records : List Record) :
    Sorted (insertAll stored records) := by
  induction records generalizing stored with
  | nil => exact h
  | cons record rest ih => exact ih (h.insert record)

theorem of_findRev? {α : Type} {idOf : α → String} {id : String} {items : List α} {a : α}
    (h : items.findRev? (idOf · == id) = some a) : a ∈ items ∧ idOf a = id := by
  rw [List.findRev?_eq_find?_reverse] at h
  exact ⟨List.mem_reverse.mp (List.mem_of_find?_eq_some h), by simpa using List.find?_some h⟩

/-- Of records of one id the last one put in counts. -/
theorem lookup_insertAll (id : String) (stored records : List Record) :
    lookup id (insertAll stored records) =
      (records.findRev? (·.id == id)).or (lookup id stored) := by
  induction records generalizing stored with
  | nil => rfl
  | cons record rest ih =>
      change lookup id (Local.insertAll (Local.insert record stored) rest) = _
      rw [ih, List.findRev?]
      cases rest.findRev? (·.id == id) with
      | some r => rfl
      | none =>
          by_cases hid : record.id = id
          · subst hid
            simp [lookup_insert_self]
          · have hne : (record.id == id) = false := by simpa using hid
            simp [hne, lookup_insert_of_ne (Ne.symm hid)]

/-! ### Removing -/

theorem remove_records (ids : List String) (records : List Record) :
    (remove ids records).2 = records.filter fun r => !ids.contains r.id := by
  induction ids generalizing records with
  | nil => exact (List.filter_eq_self.mpr fun _ _ => rfl).symm
  | cons id rest ih =>
      rw [remove]
      split_ifs with hany
      · simp only [ih, List.filter_filter]
        refine List.filter_congr fun r _ => ?_
        rw [List.contains_cons, Bool.not_or, Bool.and_comm]
        rfl
      · rw [ih]
        refine List.filter_congr fun r hr => ?_
        have hne : (r.id == id) = false := by
          rw [List.any_eq_true, not_exists] at hany
          simpa using fun heq => hany r ⟨hr, heq⟩
        rw [List.contains_cons, hne, Bool.false_or]

theorem length_filter_ne {records : List Record} (hsorted : Sorted records) {id : String}
    (h : records.any (·.id == id) = true) :
    (records.filter (·.id != id)).length + 1 = records.length := by
  induction records with
  | nil => simp at h
  | cons a rest ih =>
      obtain ⟨halt, hrest⟩ := List.pairwise_cons.mp hsorted
      by_cases ha : a.id = id
      · have hall : rest.filter (·.id != id) = rest := by
          rw [List.filter_eq_self]
          intro r hr
          simpa using fun heq => String.lt_irrefl _ ((ha.trans heq.symm) ▸ halt r hr)
        simp [ha, hall]
      · have hrestany : rest.any (·.id == id) = true := by simpa [ha] using h
        simp [ha, ih hrest hrestany]

/-- The count of a removal is the number of records that went. -/
theorem remove_count {records : List Record} (hsorted : Sorted records) (ids : List String) :
    (remove ids records).1 + (remove ids records).2.length = records.length := by
  induction ids generalizing records with
  | nil => exact Nat.zero_add _
  | cons id rest ih =>
      rw [remove]
      split_ifs with hany
      · have htail := ih (hsorted.filter (·.id != id))
        have hlength := length_filter_ne hsorted hany
        simp only
        omega
      · exact ih hsorted

theorem length_filter_add (p : Record → Bool) (records : List Record) :
    (records.filter p).length + (records.filter fun r => !p r).length = records.length := by
  have h := List.length_eq_countP_add_countP p (l := records)
  rw [List.countP_eq_length_filter, List.countP_eq_length_filter] at h
  simpa using h.symm

theorem filter_not_of_filter_nil {p : Record → Bool} {records : List Record}
    (h : records.filter p = []) : records.filter (fun r => !p r) = records := by
  rw [List.filter_eq_self]
  intro r hr
  simpa using List.filter_eq_nil_iff.mp h r hr

end SourceIndex.VectorIndex.Local
