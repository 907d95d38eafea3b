import SourceIndex.Proofs.Entity.Declarations

/-! The members of a class in a script. The search for them goes down the lines of the class, past whole
members at a time: it stops at most once at each line, so the members come in the order of the file, apart
from each other, inside the class and one brace below it. -/

namespace SourceIndex
open Text

namespace Braces

/-- The depth before line `i`, counted from line `start`: what the lines between open less what they close. -/
def depthAt (ls : List Chars) (start i : Nat) : Int :=
  ((ls.drop start).take (i - start)).foldr (fun line depth => (count line).net + depth) 0

theorem length_runningDepths (depth : Int) (ls : List Chars) :
    (runningDepths depth ls).length = ls.length := by
  induction ls generalizing depth with
  | nil => rfl
  | cons line rest ih => rw [runningDepths, List.length_cons, ih, List.length_cons]

theorem getElem?_runningDepths {ls : List Chars} {k : Nat} (hk : k < ls.length) (depth : Int) :
    (runningDepths depth ls)[k]? =
      some (depth + (ls.take k).foldr (fun line depth => (count line).net + depth) 0) := by
  induction ls generalizing depth k with
  | nil => exact absurd hk (Nat.not_lt_zero k)
  | cons line rest ih =>
      rw [runningDepths]
      cases k with
      | zero => simp
      | succ k =>
          rw [List.length_cons] at hk
          rw [List.getElem?_cons_succ, ih (Nat.lt_of_succ_lt_succ hk), List.take_succ_cons,
            List.foldr_cons, Int.add_assoc]

theorem length_depths {ls : List Chars} {start stop : Nat} (hstop : stop < ls.length) :
    (depths ls start stop).length = stop + 1 - start := by
  rw [depths, length_runningDepths, List.length_take, List.length_drop]
  omega

theorem getElem?_depths {ls : List Chars} {start stop k : Nat} (hk : start + k ≤ stop)
    (hstop : stop < ls.length) :
    (depths ls start stop)[k]? = some (depthAt ls start (start + k)) := by
  rw [depths, getElem?_runningDepths, Int.zero_add, List.take_take, depthAt]
  · congr 4
    omega
  · rw [List.length_take, List.length_drop]
    omega

end Braces

namespace Script

/-- What line `i` starts if it is one of the class on line `start`: the name of a member, and whether it is
an arrow function. -/
def headerAt? (ls : List Chars) (start i : Nat) : Option (Chars × Bool) :=
  if Braces.depthAt ls start i = 1 then ls[i]?.bind memberHeader? else none

/-- The member `name` that starts on line `i` of a class that ends on line `stop`. -/
def memberAt (ls : List Chars) (stop i : Nat) (name : Chars) : Member :=
  ⟨name, i, min (Braces.blockEnd ls i) stop⟩

/-- A search for the members of the class on lines `start` to `stop`, from a line on: the lines at which it
stops, and the members that it finds there. -/
inductive Scan (ls : List Chars) (start stop : Nat) : Nat → List Nat → List Member → Prop where
  | done {i : Nat} (hi : stop < i) : Scan ls start stop i [] []
  | pass {i : Nat} {visited : List Nat} {found : List Member} (hi : i ≤ stop)
      (hnone : headerAt? ls start i = none) (hnext : Scan ls start stop (i + 1) visited found) :
      Scan ls start stop i (i :: visited) found
  | reject {i : Nat} {name : Chars} {isArrow : Bool} {visited : List Nat} {found : List Member}
      (hi : i ≤ stop) (hsome : headerAt? ls start i = some (name, isArrow))
      (hmember : isMember ls (memberAt ls stop i name) isArrow = false)
      (hnext : Scan ls start stop ((memberAt ls stop i name).stop + 1) visited found) :
      Scan ls start stop i (i :: visited) found
  | accept {i : Nat} {name : Chars} {isArrow : Bool} {visited : List Nat} {found : List Member}
      (hi : i ≤ stop) (hsome : headerAt? ls start i = some (name, isArrow))
      (hmember : isMember ls (memberAt ls stop i name) isArrow = true)
      (hnext : Scan ls start stop ((memberAt ls stop i name).stop + 1) visited found) :
      Scan ls start stop i (i :: visited) (memberAt ls stop i name :: found)

theorem memberAt_bounds {ls : List Chars} {stop i : Nat} (hi : i ≤ stop) (name : Chars) :
    i ≤ (memberAt ls stop i name).stop ∧ (memberAt ls stop i name).stop ≤ stop := by
  have hend := Braces.le_blockEnd ls i
  simp only [memberAt]
  omega

/-- The search over lines that are given with their depths is a scan from the line where it resumes. -/
theorem scan_membersFrom {ls : List Chars} {start stop resume i : Nat} {rest : List (Chars × Int)}
    (hlength : i + rest.length = stop + 1) (hresume : resume ≤ stop + 1)
    (hrest : ∀ k line depth, rest[k]? = some (line, depth) →
      ls[i + k]? = some line ∧ depth = Braces.depthAt ls start (i + k)) :
    ∃ visited, Scan ls start stop (max i resume) visited (membersFrom ls stop resume i rest) := by
  induction rest generalizing resume i with
  | nil =>
      rw [List.length_nil] at hlength
      exact ⟨[], .done (by omega)⟩
  | cons pair rest ih =>
      obtain ⟨line, depth⟩ := pair
      rw [List.length_cons] at hlength
      have hlater : ∀ k line depth, rest[k]? = some (line, depth) →
          ls[i + 1 + k]? = some line ∧ depth = Braces.depthAt ls start (i + 1 + k) := by
        intro k line depth hk
        rw [show i + 1 + k = i + (k + 1) by omega]
        exact hrest (k + 1) line depth (by rw [List.getElem?_cons_succ, hk])
      obtain ⟨hline, hdepth⟩ := hrest 0 line depth rfl
      rw [Nat.add_zero] at hline hdepth
      rw [membersFrom]
      by_cases hbefore : i < resume
      · -- The line belongs to a member, and the search resumes below it.
        rw [if_pos (by simp [hbefore])]
        have hnext := ih (by omega) hresume hlater
        rwa [show max (i + 1) resume = max i resume by omega] at hnext
      · have hhere : max i resume = i := by omega
        have hheader : headerAt? ls start i = if depth = 1 then memberHeader? line else none := by
          rw [headerAt?, ← hdepth, hline]
          rfl
        have hpast : ∃ visited, Scan ls start stop (i + 1) visited
            (membersFrom ls stop resume (i + 1) rest) := by
          have hnext := ih (by omega) hresume hlater
          rwa [show max (i + 1) resume = i + 1 by omega] at hnext
        rw [hhere]
        by_cases hone : depth = 1
        · rw [if_neg (by simp [hbefore, hone])]
          rw [if_pos hone] at hheader
          cases hmatch : memberHeader? line with
          | none =>
              obtain ⟨visited, hscan⟩ := hpast
              exact ⟨i :: visited, .pass (by omega) (hheader.trans hmatch) hscan⟩
          | some named =>
              obtain ⟨name, isArrow⟩ := named
              obtain ⟨hge, hle⟩ : i ≤ (memberAt ls stop i name).stop ∧
                  (memberAt ls stop i name).stop ≤ stop := memberAt_bounds (by omega) name
              have hjump : ∃ visited, Scan ls start stop (max (i + 1) ((memberAt ls stop i name).stop + 1))
                  visited (membersFrom ls stop ((memberAt ls stop i name).stop + 1) (i + 1) rest) :=
                ih (by omega) (by omega) hlater
              rw [Nat.max_eq_right (Nat.succ_le_succ hge)] at hjump
              obtain ⟨visited, hscan⟩ := hjump
              refine ⟨i :: visited, ?_⟩
              simp only
              split
              · exact .accept (by omega) (hheader.trans hmatch) ‹_› hscan
              · exact .reject (by omega) (hheader.trans hmatch) (Bool.eq_false_iff.mpr ‹_›) hscan
        · rw [if_pos (by simp [hone])]
          rw [if_neg hone] at hheader
          obtain ⟨visited, hscan⟩ := hpast
          exact ⟨i :: visited, .pass (by omega) hheader hscan⟩

/-- The members of a class are found by a scan from the line below its header. -/
theorem scan_members {ls : List Chars} {start stop : Nat} (hstart : start ≤ stop)
    (hstop : stop < ls.length) :
    ∃ visited, Scan ls start stop (start + 1) visited (members ls start stop) := by
  rw [← Nat.max_zero (start + 1)]
  refine scan_membersFrom ?_ (Nat.zero_le _) ?_
  · rw [List.length_drop, List.length_zip, Braces.length_depths hstop, List.length_take,
      List.length_drop]
    omega
  · intro k line depth hk
    rw [List.getElem?_drop, List.getElem?_zip_eq_some] at hk
    obtain ⟨hline, hdepth⟩ := hk
    have hlt : 1 + k < stop + 1 - start := by
      have := (List.getElem?_eq_some_iff.mp hdepth).1
      rwa [Braces.length_depths hstop] at this
    rw [List.getElem?_take_of_lt hlt, List.getElem?_drop] at hline
    rw [Braces.getElem?_depths (by omega) hstop] at hdepth
    rw [show start + 1 + k = start + (1 + k) by omega]
    exact ⟨hline, (Option.some.inj hdepth).symm⟩

namespace Scan
variable {ls : List Chars} {start stop i : Nat} {visited : List Nat} {found : List Member}

/-- A line and the lines of a search that goes on below it. -/
theorem sorted_cons {next : Nat} (hi : i ≤ stop) (hnext : i < next)
    (h : visited.Pairwise (· < ·) ∧ ∀ v ∈ visited, next ≤ v ∧ v ≤ stop) :
    (i :: visited).Pairwise (· < ·) ∧ ∀ v ∈ i :: visited, i ≤ v ∧ v ≤ stop := by
  obtain ⟨hsorted, hbounds⟩ := h
  refine ⟨List.pairwise_cons.mpr ⟨fun v hv => ?_, hsorted⟩, fun v hv => ?_⟩
  · exact Nat.lt_of_lt_of_le hnext (hbounds v hv).1
  · rcases List.mem_cons.mp hv with rfl | hv
    · exact ⟨Nat.le_refl v, hi⟩
    · exact ⟨Nat.le_trans (Nat.le_of_lt hnext) (hbounds v hv).1, (hbounds v hv).2⟩

/-- A scan stops at lines further and further down, so never twice at one line. -/
theorem visited_sorted (h : Scan ls start stop i visited found) :
    visited.Pairwise (· < ·) ∧ ∀ v ∈ visited, i ≤ v ∧ v ≤ stop := by
  induction h with
  | done => exact ⟨List.Pairwise.nil, List.forall_mem_nil _⟩
  | pass hi _ _ ih => exact sorted_cons hi (Nat.lt_succ_self _) ih
  | reject hi _ _ _ ih => exact sorted_cons hi (Nat.lt_succ_of_le (memberAt_bounds hi _).1) ih
  | accept hi _ _ _ ih => exact sorted_cons hi (Nat.lt_succ_of_le (memberAt_bounds hi _).1) ih

/-- The members that a scan finds start at lines where it stopped, and each ends above the next one. -/
theorem found_apart (h : Scan ls start stop i visited found) :
    found.Pairwise (fun a b => a.stop < b.start) ∧ ∀ member ∈ found, member.start ∈ visited := by
  induction h with
  | done => exact ⟨List.Pairwise.nil, List.forall_mem_nil _⟩
  | pass _ _ _ ih => exact ⟨ih.1, fun member hmem => List.mem_cons_of_mem _ (ih.2 member hmem)⟩
  | reject _ _ _ _ ih => exact ⟨ih.1, fun member hmem => List.mem_cons_of_mem _ (ih.2 member hmem)⟩
  | accept _ _ _ hnext ih =>
      refine ⟨List.pairwise_cons.mpr ⟨fun later hlater => ?_, ih.1⟩, fun member hmem => ?_⟩
      · exact ((visited_sorted hnext).2 _ (ih.2 later hlater)).1
      · rcases List.mem_cons.mp hmem with rfl | hmem
        · exact List.mem_cons_self
        · exact List.mem_cons_of_mem _ (ih.2 member hmem)

end Scan

/-- A member inside the class on lines `start` to `stop`, on a line one brace below it: it ends where its own
block ends, but not below the class, and its name is no keyword. -/
structure Member.Inside (ls : List Chars) (start stop : Nat) (member : Member) : Prop where
  start_lt : start < member.start
  start_le_stop : member.start ≤ member.stop
  stop_le : member.stop ≤ stop
  stop_eq : member.stop = min (Braces.blockEnd ls member.start) stop
  depth_eq : Braces.depthAt ls start member.start = 1
  not_keyword : member.name ∉ methodKeywords

theorem inside_memberAt {ls : List Chars} {start stop i : Nat} {name : Chars} {isArrow : Bool}
    (hstart : start < i) (hi : i ≤ stop) (hsome : headerAt? ls start i = some (name, isArrow))
    (hmember : isMember ls (memberAt ls stop i name) isArrow = true) :
    (memberAt ls stop i name).Inside ls start stop where
  start_lt := hstart
  start_le_stop := (memberAt_bounds hi name).1
  stop_le := (memberAt_bounds hi name).2
  stop_eq := rfl
  depth_eq := by
    rw [headerAt?] at hsome
    split at hsome
    · assumption
    · cases hsome
  not_keyword := by
    simp only [isMember, memberAt, Bool.and_eq_true, Bool.not_eq_true', List.contains_eq_mem,
      decide_eq_false_iff_not] at hmember
    exact hmember.1

theorem Scan.inside {ls : List Chars} {start stop i : Nat} {visited : List Nat} {found : List Member}
    (h : Scan ls start stop i visited found) (hi : start < i) :
    ∀ member ∈ found, member.Inside ls start stop := by
  induction h with
  | done => exact List.forall_mem_nil _
  | pass _ _ _ ih => exact ih (Nat.lt_succ_of_lt hi)
  | reject hle _ _ _ ih =>
      exact ih (Nat.lt_succ_of_le (Nat.le_trans (Nat.le_of_lt hi) (memberAt_bounds hle _).1))
  | accept hle hsome hmember _ ih =>
      refine List.forall_mem_cons.mpr ⟨inside_memberAt hi hle hsome hmember, ih ?_⟩
      exact Nat.lt_succ_of_le (Nat.le_trans (Nat.le_of_lt hi) (memberAt_bounds hle _).1)

/-- The methods of a class are members inside it in the order of the file, each of which ends above the next
one, and the search for them stops at most once at each line of the class. -/
theorem members_inOrder {ls : List Chars} {i : Nat} {line : Chars} {captures : Pattern.Captures}
    (hline : ls[i]? = some line) (hclass : classHeader.match? line = some captures) :
    ∃ (declaration : Span) (found : List Member) (visited : List Nat),
      classSpans ls i line = declaration :: found.map (methodSpan ls (captures.get 1)) ∧
      declaration.start = i ∧ declaration.stop = Braces.blockEnd ls i ∧
      found.Pairwise (fun a b => a.stop < b.start) ∧
      (∀ member ∈ found, member.Inside ls i (Braces.blockEnd ls i)) ∧
      Scan ls i (Braces.blockEnd ls i) (i + 1) visited found ∧
      visited.Pairwise (· < ·) ∧ ∀ v ∈ visited, i + 1 ≤ v ∧ v ≤ Braces.blockEnd ls i := by
  have hi : i < ls.length := (List.getElem?_eq_some_iff.mp hline).1
  obtain ⟨visited, hscan⟩ := scan_members (Braces.le_blockEnd ls i) (Braces.blockEnd_lt hi)
  rw [classSpans, hclass]
  exact ⟨_, members ls i (Braces.blockEnd ls i), visited, rfl, rfl, rfl, hscan.found_apart.1,
    hscan.inside (Nat.lt_succ_self i), hscan, hscan.visited_sorted⟩

/-- A class with a constructor, a declaration without a body, a method that holds a block of its own and a
property on whose last line the class ends too. -/
def crowdedClass : List Chars :=
  ["class Store extends Base \x7b", "  constructor(name) \x7b this.name = name; \x7d",
    "  load(id: string): void;", "  load(id) \x7b", "    if (id) \x7b", "      find(id);", "    \x7d", "  \x7d",
    "  handle = (e) => \x7b", "    this.load(e); \x7d\x7d", "load();"].map String.toList

theorem members_inOrder_crowdedClass :
    crowdedClass[0]? = some "class Store extends Base \x7b".toList ∧
      classHeader.match? "class Store extends Base \x7b".toList =
        some [(2, "Base".toList), (1, "Store".toList)] ∧
      (classSpans crowdedClass 0 "class Store extends Base \x7b".toList).map
        (fun span => (span.start, span.stop)) = [(0, 9), (3, 7), (8, 9)] ∧
      ∃ (declaration : Span) (found : List Member),
        classSpans crowdedClass 0 "class Store extends Base \x7b".toList =
          declaration :: found.map (methodSpan crowdedClass "Store".toList) ∧
        found.Pairwise (fun a b => a.stop < b.start) ∧
        ∀ member ∈ found, member.Inside crowdedClass 0 (Braces.blockEnd crowdedClass 0) := by
  have hline : crowdedClass[0]? = some "class Store extends Base \x7b".toList := rfl
  have hclass : classHeader.match? "class Store extends Base \x7b".toList =
      some [(2, "Base".toList), (1, "Store".toList)] := by decide +kernel
  obtain ⟨declaration, found, visited, hspans, _, _, hapart, hinside, _⟩ := members_inOrder hline hclass
  exact ⟨hline, hclass, by decide +kernel, declaration, found, hspans, hapart, hinside⟩

end Script
end SourceIndex
