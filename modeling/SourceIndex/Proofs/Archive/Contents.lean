import Mathlib.Tactic.SplitIfs
import SourceIndex.Archive.Contents

/-! The files of an archive are read into a list sorted by path: every member either leaves the list as
it is or puts one file in its place. -/

namespace SourceIndex.Archive.Contents

/-- Sorted by path, each path once. -/
def Sorted (files : List (String × String)) : Prop := files.Pairwise fun a b => a.1 < b.1

theorem mem_insert {path text : String} {files : List (String × String)} {file : String × String}
    (h : file ∈ insert path text files) : file = (path, text) ∨ file ∈ files := by
  induction files with
  | nil => exact Or.inl (List.mem_singleton.mp h)
  | cons a rest ih =>
      rw [insert] at h
      split_ifs at h
      · exact List.mem_cons.mp h
      · exact (List.mem_cons.mp h).imp_right (List.mem_cons_of_mem a)
      · rcases List.mem_cons.mp h with heq | hmem
        · exact Or.inr (heq ▸ List.mem_cons_self)
        · exact (ih hmem).imp_right (List.mem_cons_of_mem a)

theorem Sorted.insert {files : List (String × String)} (h : Sorted files) (path text : String) :
    Sorted (insert path text files) := by
  induction files with
  | nil => exact List.pairwise_singleton _ _
  | cons a rest ih =>
      obtain ⟨halt, hrest⟩ := List.pairwise_cons.mp h
      rw [Contents.insert]
      split_ifs with hlt heq
      · refine List.pairwise_cons.mpr ⟨fun file hfile => ?_, h⟩
        rcases List.mem_cons.mp hfile with rfl | hmem
        · exact hlt
        · exact String.lt_trans hlt (halt file hmem)
      · exact List.pairwise_cons.mpr ⟨fun file hfile => heq ▸ halt file hfile, hrest⟩
      · refine List.pairwise_cons.mpr ⟨fun file hfile => ?_, ih hrest⟩
        rcases mem_insert hfile with rfl | hmem
        · exact Decidable.byContradiction fun hge =>
            heq (String.le_antisymm (String.not_lt.mp hge) (String.not_lt.mp hlt))
        · exact halt file hmem

theorem add_sorted {contents : Contents} (h : Sorted contents.files) (path : List Char)
    (body : List UInt8) : Sorted (contents.add path body).files := by
  rw [add]
  split
  · exact h
  · split
    · exact h
    · exact h.insert _ _

theorem addMember_sorted {filter : PathFilter} {contents contents' : Contents} {member : Tar.Member}
    (hadd : addMember filter contents member = .ok contents') (h : Sorted contents.files) :
    Sorted contents'.files := by
  rw [addMember] at hadd
  split at hadd
  · cases hadd
    exact h
  · split_ifs at hadd
    · cases hadd
      exact h
    · cases hadd
      exact h
    · split at hadd
      · cases hadd
      · cases hadd
        exact add_sorted h _ _

theorem foldlM_addMember_sorted {filter : PathFilter} {members : List Tar.Member}
    {contents contents' : Contents}
    (hfold : members.foldlM (addMember filter) contents = .ok contents')
    (h : Sorted contents.files) : Sorted contents'.files := by
  induction members generalizing contents with
  | nil =>
      cases hfold
      exact h
  | cons member rest ih =>
      rw [List.foldlM_cons] at hfold
      cases hstep : addMember filter contents member with
      | error failure =>
          rw [hstep] at hfold
          cases hfold
      | ok next =>
          rw [hstep] at hfold
          exact ih hfold (addMember_sorted hstep h)

/-- The files of an archive are sorted by path. -/
theorem read_sorted {filter : PathFilter} {file : List UInt8} {contents : Contents}
    (h : read filter file = .ok contents) : Sorted contents.files := by
  rw [read, ofListing] at h
  cases hfold : (Tar.list (Gzip.read file)).members.foldlM (addMember filter) empty with
  | error failure =>
      rw [hfold] at h
      cases h
  | ok found =>
      rw [hfold] at h
      cases hfault : (Tar.list (Gzip.read file)).fault with
      | none =>
          rw [hfault] at h
          cases h
          exact foldlM_addMember_sorted hfold List.Pairwise.nil
      | some fault =>
          rw [hfault] at h
          cases h

end SourceIndex.Archive.Contents
