import Mathlib.Data.List.TakeWhile
import SourceIndex.Proofs.Archive.Contents
import SourceIndex.Proofs.Step
import SourceIndex.Proofs.Text.Decoding

/-! Where the files of an archive go. Every file of the repository is counted once: as filtered, oversize, binary
or undecodable, or it remains, and of the files that remain under one path the last one is kept. Unless reading
fails every body was read as a whole, so that what is kept stays within the size of the filter; and if reading
fails there are no contents at all. -/

namespace SourceIndex.Archive
open Text

/-! ### Members -/

namespace Tar

end Tar

namespace Contents

/-! ### Paths -/

/-- What follows the top-level component of a path and the slashes after it. -/
def IsBelow (path rest : Chars) : Prop :=
  ∃ top slashes, path = top ++ '/' :: (slashes ++ rest) ∧ '/' ∉ top ∧ (∀ c ∈ slashes, c = '/') ∧
    rest ≠ [] ∧ rest.head? ≠ some '/'

theorem splitFirst?_cons (sep c : Char) (s : Chars) :
    splitFirst? [sep] (c :: s) =
      if sep = c then some ([], s) else (splitFirst? [sep] s).map fun (before, after) => (c :: before, after) := by
  rw [splitFirst?]
  simp [List.isPrefixOf]

theorem splitFirst?_eq_some_iff {sep : Char} {s before after : Chars} :
    splitFirst? [sep] s = some (before, after) ↔ s = before ++ sep :: after ∧ sep ∉ before := by
  induction s generalizing before with
  | nil => simp [splitFirst?]
  | cons c s ih =>
      rw [splitFirst?_cons]
      by_cases hc : sep = c
      · subst hc
        rw [if_pos rfl]
        cases before with
        | nil => simp [eq_comm]
        | cons d before =>
            constructor
            · intro h
              simp at h
            · rintro ⟨heq, hmem⟩
              exact absurd ((List.cons.inj heq).1 ▸ List.mem_cons_self) hmem
      · rw [if_neg hc]
        cases before with
        | nil => simp [Ne.symm hc]
        | cons d before =>
            simp only [Option.map_eq_some_iff, Prod.mk.injEq, Prod.exists, List.cons_append, List.cons.injEq,
              List.mem_cons, not_or]
            constructor
            · rintro ⟨before', after', hsplit, ⟨rfl, rfl⟩, rfl⟩
              obtain ⟨rfl, hmem⟩ := ih.mp hsplit
              exact ⟨⟨rfl, rfl⟩, hc, hmem⟩
            · rintro ⟨⟨rfl, hs⟩, -, hmem⟩
              exact ⟨before, after, ih.mpr ⟨hs, hmem⟩, ⟨rfl, rfl⟩, rfl⟩

theorem belowTop?_eq_some_iff {path rest : Chars} : belowTop? path = some rest ↔ IsBelow path rest := by
  rw [belowTop?]
  constructor
  · intro h
    split at h
    · rename_i top after hsplit
      obtain ⟨rfl, htop⟩ := splitFirst?_eq_some_iff.mp hsplit
      split at h
      · cases h
      · rename_i hne
        cases h
        refine ⟨top, after.takeWhile (· = '/'), ?_, htop, ?_, hne, ?_⟩
        · rw [List.takeWhile_append_dropWhile]
        · intro c hc
          simpa using List.mem_takeWhile_imp hc
        · intro hhead
          have hnot := List.head?_dropWhile_not (· = '/') after
          rw [hhead] at hnot
          simp at hnot
    · cases h
  · rintro ⟨top, slashes, rfl, htop, hslashes, hne, hhead⟩
    have hsplit : splitFirst? ['/'] (top ++ '/' :: (slashes ++ rest)) = some (top, slashes ++ rest) :=
      splitFirst?_eq_some_iff.mpr ⟨rfl, htop⟩
    obtain ⟨c, rest, rfl⟩ := List.exists_cons_of_ne_nil hne
    have hdrop : (c :: rest).dropWhile (· = '/') = c :: rest :=
      List.dropWhile_cons_of_neg (by simpa using hhead)
    rw [hsplit]
    dsimp only
    rw [List.dropWhile_append_of_pos (by simpa using hslashes), hdrop]

/-- A member is a file of the repository under a path: its name is a text, and the path is what follows the
top-level component of it. -/
def IsFile (member : Tar.Member) (path : Chars) : Prop :=
  member.isFile = true ∧ ∃ full, member.path = encode full ∧ IsBelow full path

theorem filePath?_eq_some_iff {member : Tar.Member} {path : Chars} :
    filePath? member = some path ↔ IsFile member path := by
  rw [filePath?]
  split
  · rename_i hfile
    simp only [IsFile, hfile, true_and, Option.bind_eq_some_iff, decode?_eq_some_iff, belowTop?_eq_some_iff]
  · rename_i hfile
    simp [IsFile, hfile]

/-! ### Entries -/

/-- A file of the repository in an archive, under its path below the top-level component. -/
structure Entry where
  path : Chars
  /-- As the header declares it. -/
  size : Nat
  body : List UInt8

/-- The entries among members, in order. -/
inductive Lists : List Tar.Member → List Entry → Prop where
  | nil : Lists [] []
  | other {member : Tar.Member} {members : List Tar.Member} {entries : List Entry}
      (hother : ∀ path, ¬IsFile member path) (hrest : Lists members entries) :
      Lists (member :: members) entries
  | file {member : Tar.Member} {members : List Tar.Member} {entries : List Entry} {path : Chars}
      {body : List UInt8} (hfile : IsFile member path) (hbody : member.body = .ok body)
      (hrest : Lists members entries) : Lists (member :: members) (⟨path, member.size, body⟩ :: entries)

/-- The bytes are those of a text. -/
def IsText (bytes : List UInt8) : Prop := ∃ text : String, text.toByteArray = bytes.toByteArray

theorem isText_iff {bytes : List UInt8} : IsText bytes ↔ (decode? bytes).isSome := by
  rw [IsText, Option.isSome_iff_exists]
  constructor
  · rintro ⟨text, htext⟩
    exact ⟨text.toList, decode?_eq_some_toList_iff.mpr htext⟩
  · rintro ⟨s, hs⟩
    refine ⟨String.ofList s, decode?_eq_some_toList_iff.mp ?_⟩
    rwa [String.toList_ofList]

instance : DecidablePred IsText := fun _ => decidable_of_iff _ isText_iff.symm

namespace Entry

variable (filter : PathFilter) (entry : Entry)

/-- The filter rejects the path. -/
def IsFiltered : Prop := filter.accepts entry.path = false

/-- The path is accepted, and the declared size is too large. -/
def IsOversize : Prop := filter.accepts entry.path = true ∧ filter.maxBytes < entry.size

/-- The path and the size are accepted, and there is a zero byte. -/
def IsBinary : Prop :=
  filter.accepts entry.path = true ∧ entry.size ≤ filter.maxBytes ∧ 0 ∈ entry.body

/-- Nothing but the encoding is wrong. -/
def IsUndecodable : Prop :=
  filter.accepts entry.path = true ∧ entry.size ≤ filter.maxBytes ∧ 0 ∉ entry.body ∧ ¬IsText entry.body

/-- The entry is a text to keep. -/
def Remains : Prop :=
  filter.accepts entry.path = true ∧ entry.size ≤ filter.maxBytes ∧ 0 ∉ entry.body ∧ IsText entry.body

instance : Decidable (entry.IsFiltered filter) := inferInstanceAs (Decidable (_ = _))
instance : Decidable (entry.IsOversize filter) := inferInstanceAs (Decidable (_ ∧ _))
instance : Decidable (entry.IsBinary filter) := inferInstanceAs (Decidable (_ ∧ _))
instance : Decidable (entry.IsUndecodable filter) := inferInstanceAs (Decidable (_ ∧ _))

/-- Of the entries that remain this is the last one under its path. -/
def IsLast (entries : List Entry) : Prop :=
  ∃ before after, entries = before ++ entry :: after ∧ entry.Remains filter ∧
    ∀ later ∈ after, later.Remains filter → later.path ≠ entry.path

theorem isLast_append_singleton {entries : List Entry} {filter : PathFilter} {next entry : Entry} :
    entry.IsLast filter (entries ++ [next]) ↔
      entry = next ∧ next.Remains filter ∨
        entry.IsLast filter entries ∧ ¬(next.Remains filter ∧ next.path = entry.path) := by
  constructor
  · rintro ⟨before, after, heq, hremains, hafter⟩
    rcases List.eq_nil_or_concat after with rfl | ⟨after, x, rfl⟩
    · obtain ⟨-, hlast⟩ := List.append_inj' heq rfl
      cases hlast
      exact Or.inl ⟨rfl, hremains⟩
    · rw [List.concat_eq_append, ← List.cons_append, ← List.append_assoc] at heq
      obtain ⟨rfl, hlast⟩ := List.append_inj' heq rfl
      cases hlast
      refine Or.inr ⟨⟨before, after, rfl, hremains, fun later hlater => hafter later (by simp [hlater])⟩, ?_⟩
      exact fun hnext => hafter next (by simp) hnext.1 hnext.2
  · rintro (⟨rfl, hremains⟩ | ⟨⟨before, after, rfl, hremains, hafter⟩, hnext⟩)
    · exact ⟨entries, [], rfl, hremains, nofun⟩
    · refine ⟨before, after ++ [next], by simp, hremains, fun later hlater hkept => ?_⟩
      rcases List.mem_append.mp hlater with hlater | hlater
      · exact hafter later hlater hkept
      · rw [List.mem_singleton] at hlater
        subst hlater
        exact fun hpath => hnext ⟨hkept, hpath⟩

end Entry

/-- The contents count every entry once, and hold the texts of the last ones under their paths. -/
structure Accounts (filter : PathFilter) (entries : List Entry) (contents : Contents) : Prop where
  filtered : contents.filtered = entries.countP (·.IsFiltered filter)
  oversize : contents.oversize = entries.countP (·.IsOversize filter)
  binary : contents.binary = entries.countP (·.IsBinary filter)
  undecodable : contents.undecodable = entries.countP (·.IsUndecodable filter)
  sorted : Sorted contents.files
  files : ∀ path text, (path, text) ∈ contents.files ↔
    ∃ entry : Entry, entry.IsLast filter entries ∧ path = String.ofList entry.path ∧
      text.toByteArray = entry.body.toByteArray

/-! ### Adding entries -/

/-- Putting in a file replaces the one of the same path. -/
theorem mem_insert_iff {files : List (String × String)} (hsorted : Sorted files) {path text p t : String} :
    (p, t) ∈ insert path text files ↔ p = path ∧ t = text ∨ p ≠ path ∧ (p, t) ∈ files := by
  have hne : ∀ {q : String}, path < q → q ≠ path := fun hlt heq => String.lt_irrefl _ (heq ▸ hlt)
  induction files with
  | nil => simp [insert]
  | cons file rest ih =>
      obtain ⟨q, u⟩ := file
      obtain ⟨habove, hrest⟩ := List.pairwise_cons.mp hsorted
      rw [insert]
      split_ifs with hlt heq
      · have hother : (p, t) ∈ (q, u) :: rest → p ≠ path := by
          intro hmem
          rcases List.mem_cons.mp hmem with hfirst | hlater
          · cases hfirst
            exact hne hlt
          · exact hne (String.lt_trans hlt (habove (p, t) hlater))
        rw [List.mem_cons, Prod.mk.injEq]
        exact or_congr_right ⟨fun hmem => ⟨hother hmem, hmem⟩, And.right⟩
      · subst heq
        have hother : (p, t) ∈ rest → p ≠ path := fun hmem => hne (habove (p, t) hmem)
        simp only [List.mem_cons, Prod.mk.injEq]
        constructor
        · rintro (hnew | hmem)
          · exact Or.inl hnew
          · exact Or.inr ⟨hother hmem, Or.inr hmem⟩
        · rintro (hnew | ⟨hpath, hold | hmem⟩)
          · exact Or.inl hnew
          · exact absurd hold.1 hpath
          · exact Or.inr hmem
      · have hlater : (p, t) ∈ insert path text rest ↔ p = path ∧ t = text ∨ p ≠ path ∧ (p, t) ∈ rest :=
          ih hrest
        rw [List.mem_cons, hlater, List.mem_cons, Prod.mk.injEq]
        constructor
        · rintro (⟨rfl, rfl⟩ | hnew | ⟨hpath, hmem⟩)
          · exact Or.inr ⟨Ne.symm heq, Or.inl ⟨rfl, rfl⟩⟩
          · exact Or.inl hnew
          · exact Or.inr ⟨hpath, Or.inr hmem⟩
        · rintro (hnew | ⟨hpath, hold | hmem⟩)
          · exact Or.inr (Or.inl hnew)
          · exact Or.inl hold
          · exact Or.inr (Or.inr ⟨hpath, hmem⟩)

section Steps

variable {filter : PathFilter} {entries : List Entry} {contents : Contents}

/-- An entry that does not remain leaves the files. -/
theorem Accounts.files_of_not_remains (h : Accounts filter entries contents) {entry : Entry}
    (hentry : ¬entry.Remains filter) (path text : String) :
    (path, text) ∈ contents.files ↔ ∃ e : Entry, e.IsLast filter (entries ++ [entry]) ∧
      path = String.ofList e.path ∧ text.toByteArray = e.body.toByteArray := by
  rw [h.files path text]
  refine exists_congr fun e => and_congr_left fun _ => ?_
  rw [Entry.isLast_append_singleton]
  simp [hentry]

/-- The text of an entry that remains takes the place of an earlier one. -/
theorem Accounts.files_of_remains (h : Accounts filter entries contents) {entry : Entry} {body : String}
    (hentry : entry.Remains filter) (hbody : body.toByteArray = entry.body.toByteArray) (path text : String) :
    (path, text) ∈ insert (String.ofList entry.path) body contents.files ↔
      ∃ e : Entry, e.IsLast filter (entries ++ [entry]) ∧ path = String.ofList e.path ∧
        text.toByteArray = e.body.toByteArray := by
  rw [mem_insert_iff h.sorted, h.files path text]
  simp only [Entry.isLast_append_singleton]
  constructor
  · rintro (⟨rfl, rfl⟩ | ⟨hpath, e, hlast, rfl, htext⟩)
    · exact ⟨entry, Or.inl ⟨rfl, hentry⟩, rfl, hbody⟩
    · exact ⟨e, Or.inr ⟨hlast, fun hnext => hpath (congrArg String.ofList hnext.2.symm)⟩, rfl, htext⟩
  · rintro ⟨e, ⟨rfl, -⟩ | ⟨hlast, hother⟩, rfl, htext⟩
    · exact Or.inl ⟨rfl, String.toByteArray_inj.mp (htext.trans hbody.symm)⟩
    · refine Or.inr ⟨fun hpath => hother ⟨hentry, ?_⟩, e, hlast, rfl, htext⟩
      exact (String.ofList_inj.mp hpath).symm

/-- An entry that the filter rejects is counted as such, and as nothing else. -/
theorem Accounts.countFiltered (h : Accounts filter entries contents) {entry : Entry}
    (hentry : entry.IsFiltered filter) :
    Accounts filter (entries ++ [entry]) { contents with filtered := contents.filtered + 1 } := by
  have hrejected : filter.accepts entry.path ≠ true := Bool.eq_false_iff.mp hentry
  refine ⟨?_, ?_, ?_, ?_, h.sorted, h.files_of_not_remains fun hremains => hrejected hremains.1⟩
  · simp [h.filtered, hentry]
  · simp [h.oversize, Entry.IsOversize, hrejected]
  · simp [h.binary, Entry.IsBinary, hrejected]
  · simp [h.undecodable, Entry.IsUndecodable, hrejected]

theorem Accounts.countOversize (h : Accounts filter entries contents) {entry : Entry}
    (hentry : entry.IsOversize filter) :
    Accounts filter (entries ++ [entry]) { contents with oversize := contents.oversize + 1 } := by
  have hlarge : ¬entry.size ≤ filter.maxBytes := Nat.not_le.mpr hentry.2
  refine ⟨?_, ?_, ?_, ?_, h.sorted, h.files_of_not_remains fun hremains => hlarge hremains.2.1⟩
  · simp [h.filtered, Entry.IsFiltered, hentry.1]
  · simp [h.oversize, hentry]
  · simp [h.binary, Entry.IsBinary, hlarge]
  · simp [h.undecodable, Entry.IsUndecodable, hlarge]

theorem Accounts.countBinary (h : Accounts filter entries contents) {entry : Entry} (hentry : entry.IsBinary filter) :
    Accounts filter (entries ++ [entry]) { contents with binary := contents.binary + 1 } := by
  obtain ⟨haccepts, hsize, hzero⟩ := hentry
  refine ⟨?_, ?_, ?_, ?_, h.sorted, h.files_of_not_remains fun hremains => hremains.2.2.1 hzero⟩
  · simp [h.filtered, Entry.IsFiltered, haccepts]
  · simp [h.oversize, Entry.IsOversize, Nat.not_lt.mpr hsize]
  · simp [h.binary, Entry.IsBinary, haccepts, hsize, hzero]
  · simp [h.undecodable, Entry.IsUndecodable, hzero]

theorem Accounts.countUndecodable (h : Accounts filter entries contents) {entry : Entry}
    (hentry : entry.IsUndecodable filter) :
    Accounts filter (entries ++ [entry]) { contents with undecodable := contents.undecodable + 1 } := by
  obtain ⟨haccepts, hsize, hzero, hnone⟩ := hentry
  refine ⟨?_, ?_, ?_, ?_, h.sorted, h.files_of_not_remains fun hremains => hnone hremains.2.2.2⟩
  · simp [h.filtered, Entry.IsFiltered, haccepts]
  · simp [h.oversize, Entry.IsOversize, Nat.not_lt.mpr hsize]
  · simp [h.binary, Entry.IsBinary, hzero]
  · simp [h.undecodable, Entry.IsUndecodable, haccepts, hsize, hzero, hnone]

/-- An entry that remains is put among the files, and counted nowhere. -/
theorem Accounts.keep (h : Accounts filter entries contents) {entry : Entry} {body : String}
    (hentry : entry.Remains filter) (hbody : body.toByteArray = entry.body.toByteArray) :
    Accounts filter (entries ++ [entry])
      { contents with files := insert (String.ofList entry.path) body contents.files } := by
  obtain ⟨haccepts, hsize, hzero, hsome⟩ := hentry
  refine ⟨?_, ?_, ?_, ?_, h.sorted.insert _ _, h.files_of_remains ⟨haccepts, hsize, hzero, hsome⟩ hbody⟩
  · simp [h.filtered, Entry.IsFiltered, haccepts]
  · simp [h.oversize, Entry.IsOversize, Nat.not_lt.mpr hsize]
  · simp [h.binary, Entry.IsBinary, hzero]
  · simp [h.undecodable, Entry.IsUndecodable, hsome]

/-- Adding the body of a file that the filter lets through. -/
theorem Accounts.add (h : Accounts filter entries contents) {entry : Entry}
    (haccepts : filter.accepts entry.path = true) (hsize : entry.size ≤ filter.maxBytes) :
    Accounts filter (entries ++ [entry]) (contents.add entry.path entry.body) := by
  rw [Contents.add]
  by_cases hzero : 0 ∈ entry.body
  · rw [if_pos (List.contains_iff_mem.mpr hzero)]
    exact h.countBinary ⟨haccepts, hsize, hzero⟩
  · rw [if_neg (mt List.contains_iff_mem.mp hzero)]
    cases htext : decode? entry.body with
    | none => exact h.countUndecodable ⟨haccepts, hsize, hzero, by simp [isText_iff, htext]⟩
    | some text =>
        have hbytes : (String.ofList text).toByteArray = entry.body.toByteArray :=
          decode?_eq_some_toList_iff.mp (by rw [htext, String.toList_ofList])
        exact h.keep ⟨haccepts, hsize, hzero, _, hbytes⟩ hbytes

/-- Adding a member that is a file of the repository counts it once. -/
theorem Accounts.addMember (h : Accounts filter entries contents) {member : Tar.Member} {path : Chars}
    {body : List UInt8} (hfile : IsFile member path) (hbody : member.body = .ok body) :
    ∃ contents', addMember filter contents member = .ok contents' ∧
      Accounts filter (entries ++ [⟨path, member.size, body⟩]) contents' := by
  rw [Contents.addMember, filePath?_eq_some_iff.mpr hfile]
  dsimp only
  rw [hbody]
  by_cases haccepts : filter.accepts path = true
  · rw [haccepts, Bool.not_true, if_neg Bool.false_ne_true]
    by_cases hsize : filter.maxBytes < member.size
    · rw [if_pos hsize]
      exact ⟨_, rfl, h.countOversize ⟨haccepts, hsize⟩⟩
    · rw [if_neg hsize]
      exact ⟨_, rfl, h.add haccepts (Nat.not_lt.mp hsize)⟩
  · rw [Bool.not_eq_true] at haccepts
    rw [haccepts, Bool.not_false, if_pos rfl]
    exact ⟨_, rfl, h.countFiltered haccepts⟩

/-- Reading on adds the entries of the further members. -/
theorem Accounts.foldlM {members : List Tar.Member} {later : List Entry} (hlists : Lists members later)
    (h : Accounts filter entries contents) :
    ∃ contents', members.foldlM (Contents.addMember filter) contents = .ok contents' ∧
      Accounts filter (entries ++ later) contents' := by
  induction hlists generalizing entries contents with
  | nil => exact ⟨contents, rfl, by rwa [List.append_nil]⟩
  | @other member members later hother _ ih =>
      have hnone : filePath? member = none := by
        rw [Option.eq_none_iff_forall_ne_some]
        exact fun path hpath => hother path (filePath?_eq_some_iff.mp hpath)
      have hadd : Contents.addMember filter contents member = .ok contents := by
        rw [Contents.addMember, hnone]
      rw [List.foldlM_cons, hadd]
      exact ih h
  | @file member members later path body hfile hbody _ ih =>
      obtain ⟨next, hadd, hnext⟩ := h.addMember hfile hbody
      obtain ⟨contents', hrest, haccounts⟩ := ih hnext
      rw [List.foldlM_cons, hadd]
      refine ⟨contents', hrest, ?_⟩
      rwa [List.append_assoc] at haccounts

end Steps

/-! ### Archives -/

/-- What is kept of a file that the filter lets through. -/
def Kept (filter : PathFilter) (path text : String) : Prop :=
  filter.accepts path.toList = true ∧ '\x00' ∉ text.toList ∧ text.utf8ByteSize ≤ filter.maxBytes

theorem Accounts.kept {filter : PathFilter} {entries : List Entry} {contents : Contents}
    (h : Accounts filter entries contents) (hentries : ∀ entry ∈ entries, entry.body.length = entry.size)
    {path text : String} (hfile : (path, text) ∈ contents.files) : Kept filter path text := by
  obtain ⟨entry, ⟨before, after, rfl, ⟨haccepts, hsize, hzero, -⟩, -⟩, rfl, htext⟩ := (h.files path text).mp hfile
  have hbytes : entry.body = encode text.toList := decode?_eq_some_iff.mp (decode?_eq_some_toList_iff.mpr htext)
  refine ⟨by rwa [String.toList_ofList], fun hmem => hzero ?_, ?_⟩
  · rw [hbytes]
    exact List.mem_flatMap.mpr ⟨'\x00', hmem, by decide⟩
  · rw [← String.size_toByteArray, htext, List.size_toByteArray, hentries entry (by simp)]
    exact hsize

end Contents

end SourceIndex.Archive
