import SourceIndex.Path

/-! The components of a path: which texts are components before the last one, what the last one is, and what
extension an ending of the path gives it. -/

namespace SourceIndex.Path
open Text

theorem splitAfter_eq (p : Char → Bool) (s field : Chars) : splitAfter p s field = s.splitOnPPrepend p field := by
  induction s generalizing field with
  | nil => rw [splitAfter, List.splitOnPPrepend_nil]
  | cons c s ih => rw [splitAfter, List.splitOnPPrepend_cons_eq_if, ih, ih, List.splitOnPPrepend_nil_right]

theorem splitOn_eq (sep : Char) (s : Chars) : splitOn sep s = s.splitOn sep := splitAfter_eq _ s []

/-- A place in a path where a component starts: what stands before it is nothing, or ends with a slash. -/
def Opens (front : Chars) : Prop := front = [] ∨ ∃ before, front = before ++ ['/']

theorem opens_flatMap (components : List Chars) : Opens (components.flatMap (· ++ ['/'])) := by
  rcases List.eq_nil_or_concat components with rfl | ⟨before, last, rfl⟩
  · exact Or.inl rfl
  · exact Or.inr ⟨before.flatMap (· ++ ['/']) ++ last, by simp⟩

/-! ### Components before the last one -/

theorem mem_dropLast_iff {components : List Chars} {name : Chars} :
    name ∈ components.dropLast ↔ ∃ before next after, components = before ++ name :: next :: after := by
  constructor
  · intro h
    have hne : components ≠ [] := by
      rintro rfl
      cases h
    obtain ⟨before, after, hinit⟩ := List.append_of_mem h
    have heq := List.dropLast_concat_getLast hne
    rw [hinit, List.append_assoc, List.cons_append] at heq
    cases after with
    | nil => exact ⟨before, _, [], heq.symm⟩
    | cons next after => exact ⟨before, next, _, heq.symm⟩
  · rintro ⟨before, next, after, rfl⟩
    rw [List.dropLast_append_cons, List.dropLast_cons_of_ne_nil (List.cons_ne_nil next after)]
    exact List.mem_append_right before List.mem_cons_self

/-- Components joined by slashes, cut behind one of them. -/
theorem intercalate_append (before : List Chars) (name next : Chars) (after : List Chars) :
    ['/'].intercalate (before ++ name :: next :: after) =
      before.flatMap (· ++ ['/']) ++ name ++ '/' :: ['/'].intercalate (next :: after) := by
  induction before with
  | nil => simp
  | cons first before ih =>
      rw [List.cons_append, List.intercalate_cons_of_ne_nil (by simp), ih]
      simp

theorem mem_dropLast_components_iff {name path : Chars} (hname : '/' ∉ name) :
    name ∈ (components path).dropLast ↔ ∃ front rest, path = front ++ name ++ '/' :: rest ∧ Opens front := by
  rw [components, splitOn_eq]
  constructor
  · intro h
    obtain ⟨before, next, after, heq⟩ := mem_dropLast_iff.mp h
    refine ⟨before.flatMap (· ++ ['/']), ['/'].intercalate (next :: after), ?_, opens_flatMap before⟩
    rw [← intercalate_append, ← heq, List.intercalate_splitOn]
  · have hinner (rest : Chars) : name ∈ ((name ++ '/' :: rest).splitOn '/').dropLast := by
      rw [List.splitOn_append_cons_self_of_not_mem hname,
        List.dropLast_cons_of_ne_nil (List.splitOn_ne_nil _ rest)]
      exact List.mem_cons_self
    rintro ⟨front, rest, rfl, rfl | ⟨before, rfl⟩⟩
    · exact hinner rest
    · rw [List.append_assoc, List.append_assoc, List.singleton_append, List.splitOn_append_cons_self,
        List.dropLast_append_of_ne_nil (List.splitOn_ne_nil _ _)]
      exact List.mem_append_right _ (hinner rest)

/-! ### The last component -/

theorem fileName_append {front name : Chars} (hfront : Opens front) (hname : '/' ∉ name) :
    fileName (front ++ name) = name := by
  rw [fileName, components, splitOn_eq]
  rcases hfront with rfl | ⟨before, rfl⟩
  · rw [List.nil_append, List.splitOn_eq_singleton hname]
    rfl
  · rw [List.append_assoc, List.singleton_append, List.splitOn_append_cons_self, List.splitOn_eq_singleton hname,
      List.getLastD_concat]

theorem exists_opens_append (path : Chars) : ∃ front name, path = front ++ name ∧ Opens front ∧ '/' ∉ name := by
  induction path with
  | nil => exact ⟨[], [], rfl, Or.inl rfl, List.not_mem_nil⟩
  | cons c path ih =>
      obtain ⟨front, name, rfl, hfront, hname⟩ := ih
      rcases hfront with rfl | ⟨before, rfl⟩
      · by_cases hc : '/' = c
        · exact ⟨['/'], name, by rw [hc]; rfl, Or.inr ⟨[], rfl⟩, hname⟩
        · exact ⟨[], c :: name, rfl, Or.inl rfl, by simp [hc, hname]⟩
      · exact ⟨c :: (before ++ ['/']), name, rfl, Or.inr ⟨c :: before, rfl⟩, hname⟩

/-- A path that ends with a dot and a text has that text for its extension, if it has one. -/
theorem extension_of_suffix {path ending : Chars} (hdot : '.' ∉ ending) (hslash : '/' ∉ ending)
    (h : '.' :: ending <:+ path) : extension path = asciiLower ending ∨ extension path = [] := by
  obtain ⟨start, rfl⟩ := h
  obtain ⟨front, stem, rfl, hfront, hstem⟩ := exists_opens_append start
  have hname : '/' ∉ stem ++ '.' :: ending := by simp [hstem, hslash]
  rw [List.append_assoc, extension, fileName_append hfront hname, splitOn_eq, List.splitOn_append_cons_self,
    List.splitOn_eq_singleton hdot, List.getLastD_concat]
  split
  · exact Or.inl rfl
  · exact Or.inr rfl

end SourceIndex.Path
