import SourceIndex.Entity.SourceFile
import SourceIndex.Proofs.Entity.Blocks

/-! The declarations that are found in a file. Whatever the language, the span of a declaration lies within
the lines of the file, and a docstring that was found for it is long enough to be kept and short enough to
need no further cut. -/

namespace SourceIndex
open Text

namespace Docstring

/-- A docstring, if there is one, is longer than the shortest texts and was cut to the longest. -/
def Limited (doc : Option Chars) : Prop :=
  ∀ text, doc = some text → minLength < text.length ∧ text.length ≤ maxLength

theorem limited_none : Limited none := by
  intro text h
  cases h

theorem limited_bounded? (text : Chars) : Limited (bounded? text) := by
  intro kept h
  rw [bounded?] at h
  split at h
  · cases h
  · cases h
    simp only [List.length_take, minLength, maxLength] at *
    omega

theorem limited_ofLines? (raw : List Chars) : Limited (ofLines? raw) := limited_bounded? _

theorem limited_before? (ls : List Chars) (start : Nat) : Limited (before? ls start) :=
  limited_ofLines? _

theorem limited_inBody? (ls : List Chars) (header : Nat) : Limited (inBody? ls header) := by
  unfold inBody?
  split
  · exact limited_none
  · simp only
    split
    · exact limited_none
    · split
      · exact limited_ofLines? _
      · split
        · exact limited_ofLines? _
        · exact limited_none

end Docstring

namespace Span

/-- A span of a file of `count` lines, with a docstring within the limits. -/
structure Sound (count : Nat) (span : Span) : Prop where
  start_le : span.start ≤ span.stop
  stop_lt : span.stop < count
  kind_ne : span.kind ≠ .file
  doc_limited : Docstring.Limited span.doc

end Span

/-! ### Scripts -/

namespace Script

attribute [local irreducible] Docstring.before?

/-- The members of a class stand below the line where the search began, and end within the class. -/
theorem mem_membersFrom {ls : List Chars} {stop resume i : Nat} {rest : List (Chars × Int)}
    (hrest : i + rest.length ≤ stop + 1) {member : Member}
    (h : member ∈ membersFrom ls stop resume i rest) :
    i ≤ member.start ∧ member.start ≤ member.stop ∧ member.stop ≤ stop := by
  induction rest generalizing resume i with
  | nil => cases h
  | cons pair rest ih =>
      obtain ⟨line, depth⟩ := pair
      rw [List.length_cons] at hrest
      -- Whether or not the line is skipped, what follows starts below it.
      have hlater : ∀ resume', member ∈ membersFrom ls stop resume' (i + 1) rest →
          i ≤ member.start ∧ member.start ≤ member.stop ∧ member.stop ≤ stop := by
        intro resume' hmem
        obtain ⟨hstart, hrange⟩ := ih (by omega) hmem
        exact ⟨by omega, hrange⟩
      rw [membersFrom] at h
      split at h
      · exact hlater _ h
      · split at h
        · exact hlater _ h
        · simp only at h
          split at h
          · rcases List.mem_cons.mp h with rfl | hmem
            · have hend := Braces.le_blockEnd ls i
              simp only
              omega
            · exact hlater _ hmem
          · exact hlater _ h

theorem mem_members {ls : List Chars} {start stop : Nat} (hstart : start ≤ stop) {member : Member}
    (h : member ∈ members ls start stop) :
    start < member.start ∧ member.start ≤ member.stop ∧ member.stop ≤ stop := by
  refine mem_membersFrom ?_ h
  simp only [List.length_drop, List.length_zip, List.length_take]
  omega

section
variable {ls : List Chars} {i : Nat} {line : Chars} {span : Span}

theorem sound_of_mem_classSpans (hi : i < ls.length) (h : span ∈ classSpans ls i line) :
    span.Sound ls.length := by
  unfold classSpans at h
  split at h
  · cases h
  · simp only at h
    have hend := Braces.blockEnd_lt hi
    have hstart := Braces.le_blockEnd ls i
    rcases List.mem_cons.mp h with rfl | hmem
    · exact ⟨hstart, hend, EntityKind.noConfusion, Docstring.limited_before? ls i⟩
    · obtain ⟨member, hmember, rfl⟩ := List.mem_map.mp hmem
      obtain ⟨_, hrange, hwithin⟩ := mem_members hstart hmember
      exact ⟨hrange, Nat.lt_of_le_of_lt hwithin hend, EntityKind.noConfusion,
        Docstring.limited_before? ls member.start⟩

theorem sound_of_functionSpan? (hi : i < ls.length) (h : functionSpan? ls i line = some span) :
    span.Sound ls.length := by
  obtain ⟨captures, _, rfl⟩ := Option.map_eq_some_iff.mp h
  exact ⟨Braces.le_blockEnd ls i, Braces.blockEnd_lt hi, EntityKind.noConfusion,
    Docstring.limited_before? ls i⟩

theorem sound_of_componentSpan? (hi : i < ls.length) (h : componentSpan? ls i line = some span) :
    span.Sound ls.length := by
  unfold componentSpan? at h
  split at h
  · cases h
  · split at h
    · cases h
      refine ⟨?_, ?_, EntityKind.noConfusion, Docstring.limited_before? ls i⟩
      · simp only
        omega
      · simp only
        omega
    · cases h

theorem sound_of_mem_spans {withComponents : Bool} (h : span ∈ spans ls withComponents) :
    span.Sound ls.length := by
  have hindex : ∀ pair ∈ ls.zipIdx, pair.2 < ls.length := fun pair hpair =>
    List.snd_lt_of_mem_zipIdx hpair
  unfold spans at h
  simp only [List.mem_append, List.mem_flatMap, List.mem_filterMap] at h
  rcases h with (⟨pair, hpair, hspan⟩ | ⟨pair, hpair, hspan⟩) | hcomponent
  · exact sound_of_mem_classSpans (hindex pair hpair) hspan
  · exact sound_of_functionSpan? (hindex pair hpair) hspan
  · split at hcomponent
    · obtain ⟨pair, hpair, hspan⟩ := List.mem_filterMap.mp hcomponent
      exact sound_of_componentSpan? (hindex pair hpair) hspan
    · cases hcomponent

end

end Script

/-! ### Python -/

namespace Python

theorem limited_doc? (ls : List Chars) (i : Nat) : Docstring.Limited (doc? ls i) := by
  have habove := Docstring.limited_before? ls i
  unfold doc?
  cases h : Docstring.before? ls i with
  | none => exact Docstring.limited_inBody? _ _
  | some text =>
      rw [h] at habove
      exact habove

section
variable {ls : List Chars} {i : Nat} {line : Chars} {span : Span}

/-- A method is a definition at the indent of the class's body, with the block that it heads. -/
theorem of_methodSpan? {className : Chars} {memberIndent : Nat}
    (h : methodSpan? ls className memberIndent i line = some span) :
    Indentation.indent line = memberIndent ∧
      ∃ captures, indentedDefinition.match? line = some captures ∧
        span = ⟨.method, className ++ ['.'] ++ captures.get 1, i, Indentation.blockEnd ls i, doc? ls i,
          some className, none⟩ := by
  unfold methodSpan? at h
  split at h
  · cases h
  · obtain ⟨captures, hmatch, rfl⟩ := Option.map_eq_some_iff.mp h
    exact ⟨Decidable.not_not.mp ‹_›, captures, hmatch, rfl⟩

/-- The methods of a class are found on its lines below the header. -/
theorem mem_methodSpans {className : Chars} {start stop : Nat}
    (h : span ∈ methodSpans ls className start stop) :
    ∃ width i line, Indentation.innerIndent ls start stop = some width ∧
      Indentation.headerEnd ls start < i ∧ i ≤ stop ∧ ls[i]? = some line ∧
      methodSpan? ls className width i line = some span := by
  unfold methodSpans at h
  split at h
  · cases h
  · obtain ⟨⟨line, i⟩, hpair, hspan⟩ := List.mem_filterMap.mp h
    obtain ⟨k, hk⟩ := List.getElem?_of_mem hpair
    rw [List.getElem?_drop, List.getElem?_take] at hk
    split at hk
    · rw [List.getElem?_zipIdx, Option.map_eq_some_iff] at hk
      obtain ⟨_, hline, heq⟩ := hk
      obtain ⟨rfl, rfl⟩ := Prod.mk.inj heq
      rw [Nat.zero_add] at hspan
      exact ⟨_, _, _, ‹_›, by omega, by omega, hline, hspan⟩
    · cases hk

/-- A declaration is found on a line of its own, as a class or one of its methods, or as a function. -/
theorem mem_spans (h : span ∈ spans ls) :
    ∃ i line, ls[i]? = some line ∧ (span ∈ classSpans ls i line ∨ functionSpan? ls i line = some span) := by
  unfold spans at h
  simp only [List.mem_append, List.mem_flatMap, List.mem_filterMap] at h
  rcases h with ⟨⟨line, i⟩, hpair, hspan⟩ | ⟨⟨line, i⟩, hpair, hspan⟩
  · exact ⟨i, line, List.mem_zipIdx_iff_getElem?.mp hpair, Or.inl hspan⟩
  · exact ⟨i, line, List.mem_zipIdx_iff_getElem?.mp hpair, Or.inr hspan⟩

theorem sound_of_methodSpan? {className : Chars} {memberIndent : Nat} (hi : i < ls.length)
    (h : methodSpan? ls className memberIndent i line = some span) : span.Sound ls.length := by
  obtain ⟨_, captures, _, rfl⟩ := of_methodSpan? h
  exact ⟨Indentation.le_blockEnd ls i, Indentation.blockEnd_lt hi, EntityKind.noConfusion, limited_doc? ls i⟩

theorem sound_of_mem_methodSpans {className : Chars} {start stop : Nat}
    (h : span ∈ methodSpans ls className start stop) : span.Sound ls.length := by
  obtain ⟨_, _, _, _, _, _, hline, hspan⟩ := mem_methodSpans h
  exact sound_of_methodSpan? (List.getElem?_eq_some_iff.mp hline).1 hspan

theorem sound_of_mem_classSpans (hi : i < ls.length) (h : span ∈ classSpans ls i line) :
    span.Sound ls.length := by
  unfold classSpans at h
  split at h
  · cases h
  · simp only at h
    rcases List.mem_cons.mp h with rfl | hmem
    · exact ⟨Indentation.le_blockEnd ls i, Indentation.blockEnd_lt hi, EntityKind.noConfusion,
        limited_doc? ls i⟩
    · exact sound_of_mem_methodSpans hmem

theorem sound_of_functionSpan? (hi : i < ls.length) (h : functionSpan? ls i line = some span) :
    span.Sound ls.length := by
  obtain ⟨captures, _, rfl⟩ := Option.map_eq_some_iff.mp h
  exact ⟨Indentation.le_blockEnd ls i, Indentation.blockEnd_lt hi, EntityKind.noConfusion,
    limited_doc? ls i⟩

theorem sound_of_mem_spans (h : span ∈ spans ls) : span.Sound ls.length := by
  obtain ⟨i, line, hline, hclass | hfunction⟩ := mem_spans h
  · exact sound_of_mem_classSpans (List.getElem?_eq_some_iff.mp hline).1 hclass
  · exact sound_of_functionSpan? (List.getElem?_eq_some_iff.mp hline).1 hfunction

end

end Python

theorem SourceFile.sound_of_mem_declarations {ls : List Chars} {language : Language}
    {withComponents : Bool} {span : Span} (h : span ∈ declarations ls language withComponents) :
    span.Sound ls.length := by
  cases language with
  | script => exact Script.sound_of_mem_spans h
  | python => exact Python.sound_of_mem_spans h
  | other => cases h

end SourceIndex
