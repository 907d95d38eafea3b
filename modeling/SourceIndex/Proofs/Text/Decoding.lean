import Mathlib.Tactic.SplitIfs
import SourceIndex.Json.Node
import SourceIndex.Proofs.Text.Utf8

/-! Reading bytes as a text. The decoder gives back the characters of every text, and it refuses all bytes that
are not those of a text: whatever it reads without a broken part starts with the bytes of one character. What keeps
the broken parts sees the same characters and the same parts, so a document is read from its bytes as from its text. -/

namespace SourceIndex
namespace Text

theorem toNat_toUInt8 {n : Nat} (h : n < 256) : n.toUInt8.toNat = n := by
  rw [Nat.toUInt8_eq, UInt8.toNat_ofNat', Nat.mod_eq_of_lt h]

theorem toUInt8_eq {n : Nat} {b : UInt8} (h : n = b.toNat) : n.toUInt8 = b := by
  rw [← UInt8.toNat_inj, toNat_toUInt8 (h ▸ UInt8.toNat_lt b), h]

/-! ### Single bytes -/

/-- What the first byte of a character says: how many bytes follow it, its own bits, and the range of the second
byte, which leaves out sequences that are too long, surrogates and numbers above those of characters. -/
theorem of_sequenceShape {b : UInt8} {missing bits low high : Nat}
    (h : sequenceShape b = some (missing, bits, low, high)) :
    (missing = 0 ∧ b.toNat < 0x80 ∧ bits = b.toNat) ∨
    (missing = 1 ∧ 0xC2 ≤ b.toNat ∧ b.toNat ≤ 0xDF ∧ bits = b.toNat - 0xC0 ∧ low = 0x80 ∧ high = 0xBF) ∨
    (missing = 2 ∧ 0xE0 ≤ b.toNat ∧ b.toNat ≤ 0xEF ∧ bits = b.toNat - 0xE0 ∧
      low = (if b.toNat = 0xE0 then 0xA0 else 0x80) ∧ high = (if b.toNat = 0xED then 0x9F else 0xBF)) ∨
    (missing = 3 ∧ 0xF0 ≤ b.toNat ∧ b.toNat ≤ 0xF4 ∧ bits = b.toNat - 0xF0 ∧
      low = (if b.toNat = 0xF0 then 0x90 else 0x80) ∧ high = (if b.toNat = 0xF4 then 0x8F else 0xBF)) := by
  simp only [sequenceShape, Bool.and_eq_true, decide_eq_true_eq] at h
  by_cases hone : b.toNat < 0x80
  · rw [if_pos hone] at h
    grind
  rw [if_neg hone] at h
  by_cases htwo : 0xC2 ≤ b.toNat ∧ b.toNat ≤ 0xDF
  · rw [if_pos htwo] at h
    grind
  rw [if_neg htwo] at h
  by_cases hthree : 0xE0 ≤ b.toNat ∧ b.toNat ≤ 0xEF
  · refine Or.inr (Or.inr (Or.inl ?_))
    grind
  · refine Or.inr (Or.inr (Or.inr ?_))
    grind

theorem sequenceShape_two {n : Nat} (hlow : 0xC2 ≤ n) (hhigh : n ≤ 0xDF) :
    sequenceShape n.toUInt8 = some (1, n - 0xC0, 0x80, 0xBF) := by
  rw [sequenceShape, toNat_toUInt8 (by omega)]
  simp [hlow, hhigh, show ¬n < 0x80 by omega]

theorem sequenceShape_three {n : Nat} (hlow : 0xE0 ≤ n) (hhigh : n ≤ 0xEF) :
    sequenceShape n.toUInt8 =
      some (2, n - 0xE0, if n = 0xE0 then 0xA0 else 0x80, if n = 0xED then 0x9F else 0xBF) := by
  rw [sequenceShape, toNat_toUInt8 (by omega)]
  grind

theorem sequenceShape_four {n : Nat} (hlow : 0xF0 ≤ n) (hhigh : n ≤ 0xF4) :
    sequenceShape n.toUInt8 =
      some (3, n - 0xF0, if n = 0xF0 then 0x90 else 0x80, if n = 0xF4 then 0x8F else 0xBF) := by
  rw [sequenceShape, toNat_toUInt8 (by omega)]
  grind

theorem feed_within {p : Pending} {b : UInt8} (hlow : p.low ≤ b.toNat) (hhigh : b.toNat ≤ p.high) :
    feed (some p) b =
      if p.missing ≤ 1 then ([Char.ofNat (p.bits * 64 + b.toNat % 64)], false, none)
      else ([], false, some ⟨p.missing - 1, p.bits * 64 + b.toNat % 64, 0x80, 0xBF⟩) := by
  simp [feed, hlow, hhigh]

theorem feed_outside {p : Pending} {b : UInt8} (h : ¬(p.low ≤ b.toNat ∧ b.toNat ≤ p.high)) :
    (feed (some p) b).2.1 = true := by
  simp [feed, h]

section Steps

variable {b : UInt8} (rest : List UInt8) (done : Chars) (broken : Bool)

theorem decodeFrom_cons (b : UInt8) (pending : Option Pending) :
    decodeFrom (b :: rest) pending done broken =
      decodeFrom rest (feed pending b).2.2 ((feed pending b).1.reverse ++ done) (broken || (feed pending b).2.1) :=
  rfl

/-- The first byte of several. -/
theorem decodeFrom_lead {missing bits low high : Nat}
    (h : sequenceShape b = some (missing + 1, bits, low, high)) :
    decodeFrom (b :: rest) none done broken =
      decodeFrom rest (some ⟨missing + 1, bits, low, high⟩) done broken := by
  have hfeed : feed none b = ([], false, some ⟨missing + 1, bits, low, high⟩) := by simp only [feed, h]
  rw [decodeFrom_cons, hfeed, Bool.or_false]
  rfl

/-- A byte between the first and the last one. -/
theorem decodeFrom_more {missing bits low high : Nat} (hlow : low ≤ b.toNat) (hhigh : b.toNat ≤ high) :
    decodeFrom (b :: rest) (some ⟨missing + 2, bits, low, high⟩) done broken =
      decodeFrom rest (some ⟨missing + 1, bits * 64 + b.toNat % 64, 0x80, 0xBF⟩) done broken := by
  rw [decodeFrom_cons, feed_within hlow hhigh, if_neg (by simp), Bool.or_false]
  rfl

/-- The last byte. -/
theorem decodeFrom_last {bits low high : Nat} (hlow : low ≤ b.toNat) (hhigh : b.toNat ≤ high) :
    decodeFrom (b :: rest) (some ⟨1, bits, low, high⟩) done broken =
      decodeFrom rest none (Char.ofNat (bits * 64 + b.toNat % 64) :: done) broken := by
  rw [decodeFrom_cons, feed_within hlow hhigh, if_pos (Nat.le_refl 1), Bool.or_false]
  rfl

end Steps

theorem decodeFrom_broken (bytes : List UInt8) (pending : Option Pending) (done : Chars) :
    (decodeFrom bytes pending done true).2 = true := by
  induction bytes generalizing pending done with
  | nil => cases pending <;> rfl
  | cons b rest ih =>
      rw [decodeFrom_cons, Bool.true_or]
      exact ih _ _

/-- A decoder that waits for a byte and finds no broken part is given one in the range it waits for. -/
theorem exists_next {bytes : List UInt8} {p : Pending} {done : Chars}
    (h : (decodeFrom bytes (some p) done false).2 = false) :
    ∃ b rest, bytes = b :: rest ∧ p.low ≤ b.toNat ∧ b.toNat ≤ p.high := by
  cases bytes with
  | nil => cases h
  | cons b rest =>
      by_cases hrange : p.low ≤ b.toNat ∧ b.toNat ≤ p.high
      · exact ⟨b, rest, rfl, hrange⟩
      · rw [decodeFrom_cons, feed_outside hrange, Bool.or_true, decodeFrom_broken] at h
        cases h

/-! ### Characters -/

/-- Every number of a character that is no surrogate is that of a character. -/
theorem exists_toNat_eq {n : Nat} (h : n < 0xD800 ∨ 0xDFFF < n ∧ n < 0x110000) : ∃ c : Char, c.toNat = n := by
  have hbound : n < 2 ^ 32 := by omega
  refine ⟨⟨UInt32.ofNatLT n hbound, ?_⟩, ?_⟩
  · simpa [UInt32.isValidChar, Nat.isValidChar] using h
  · simp [Char.toNat]

section Sequences

variable {b₁ b₂ b₃ b₄ : UInt8}

theorem exists_encodeChar_two (h₁ : 0xC2 ≤ b₁.toNat ∧ b₁.toNat ≤ 0xDF)
    (h₂ : 0x80 ≤ b₂.toNat ∧ b₂.toNat ≤ 0xBF) : ∃ c, encodeChar c = [b₁, b₂] := by
  obtain ⟨c, hc⟩ := exists_toNat_eq (n := (b₁.toNat - 0xC0) * 64 + (b₂.toNat - 0x80)) (by omega)
  refine ⟨c, ?_⟩
  simp only [encodeChar]
  rw [if_neg (by omega), if_pos (by omega), toUInt8_eq (b := b₁) (by omega), toUInt8_eq (b := b₂) (by omega)]

theorem exists_encodeChar_three (h₁ : 0xE0 ≤ b₁.toNat ∧ b₁.toNat ≤ 0xEF)
    (h₂ : 0x80 ≤ b₂.toNat ∧ b₂.toNat ≤ 0xBF) (hlong : b₁.toNat = 0xE0 → 0xA0 ≤ b₂.toNat)
    (hsurrogate : b₁.toNat = 0xED → b₂.toNat ≤ 0x9F) (h₃ : 0x80 ≤ b₃.toNat ∧ b₃.toNat ≤ 0xBF) :
    ∃ c, encodeChar c = [b₁, b₂, b₃] := by
  obtain ⟨c, hc⟩ := exists_toNat_eq
    (n := (b₁.toNat - 0xE0) * 4096 + (b₂.toNat - 0x80) * 64 + (b₃.toNat - 0x80)) (by omega)
  refine ⟨c, ?_⟩
  simp only [encodeChar]
  rw [if_neg (by omega), if_neg (by omega), if_pos (by omega), toUInt8_eq (b := b₁) (by omega),
    toUInt8_eq (b := b₂) (by omega), toUInt8_eq (b := b₃) (by omega)]

theorem exists_encodeChar_four (h₁ : 0xF0 ≤ b₁.toNat ∧ b₁.toNat ≤ 0xF4)
    (h₂ : 0x80 ≤ b₂.toNat ∧ b₂.toNat ≤ 0xBF) (hlong : b₁.toNat = 0xF0 → 0x90 ≤ b₂.toNat)
    (hlarge : b₁.toNat = 0xF4 → b₂.toNat ≤ 0x8F) (h₃ : 0x80 ≤ b₃.toNat ∧ b₃.toNat ≤ 0xBF)
    (h₄ : 0x80 ≤ b₄.toNat ∧ b₄.toNat ≤ 0xBF) : ∃ c, encodeChar c = [b₁, b₂, b₃, b₄] := by
  obtain ⟨c, hc⟩ := exists_toNat_eq (n := (b₁.toNat - 0xF0) * 262144 + (b₂.toNat - 0x80) * 4096 +
    (b₃.toNat - 0x80) * 64 + (b₄.toNat - 0x80)) (by omega)
  refine ⟨c, ?_⟩
  simp only [encodeChar]
  rw [if_neg (by omega), if_neg (by omega), if_neg (by omega), toUInt8_eq (b := b₁) (by omega),
    toUInt8_eq (b := b₂) (by omega), toUInt8_eq (b := b₃) (by omega), toUInt8_eq (b := b₄) (by omega)]

end Sequences

/-- What is read without a broken part starts with the bytes of a character. -/
theorem exists_encodeChar_append {bytes : List UInt8} {done : Chars} (hne : bytes ≠ [])
    (h : (decodeFrom bytes none done false).2 = false) : ∃ c rest, bytes = encodeChar c ++ rest := by
  obtain ⟨b₁, rest₁, rfl⟩ := List.exists_cons_of_ne_nil hne
  cases hshape : sequenceShape b₁ with
  | none =>
      have hbad : (feed none b₁).2.1 = true := by simp only [feed, hshape]
      rw [decodeFrom_cons, hbad, Bool.or_true, decodeFrom_broken] at h
      cases h
  | some shape =>
      obtain ⟨missing, bits, low, high⟩ := shape
      rcases of_sequenceShape hshape with ⟨rfl, hb₁, -⟩ | ⟨rfl, hlow₁, hhigh₁, -, hlow, hhigh⟩ |
        ⟨rfl, hlow₁, hhigh₁, -, hlow, hhigh⟩ | ⟨rfl, hlow₁, hhigh₁, -, hlow, hhigh⟩
      · obtain ⟨c, hc⟩ := exists_toNat_eq (n := b₁.toNat) (by omega)
        refine ⟨c, rest₁, ?_⟩
        simp only [encodeChar, hc, if_pos hb₁, toUInt8_eq rfl, List.cons_append, List.nil_append]
      · rw [decodeFrom_lead _ _ _ hshape] at h
        obtain ⟨b₂, rest₂, rfl, hlow₂, hhigh₂⟩ := exists_next h
        obtain ⟨c, hc⟩ : ∃ c, encodeChar c = [b₁, b₂] :=
          exists_encodeChar_two ⟨hlow₁, hhigh₁⟩ ⟨hlow ▸ hlow₂, hhigh ▸ hhigh₂⟩
        exact ⟨c, rest₂, by rw [hc]; rfl⟩
      · rw [decodeFrom_lead _ _ _ hshape] at h
        obtain ⟨b₂, rest₂, rfl, hlow₂, hhigh₂⟩ := exists_next h
        rw [decodeFrom_more _ _ _ hlow₂ hhigh₂] at h
        obtain ⟨b₃, rest₃, rfl, hlow₃, hhigh₃⟩ := exists_next h
        obtain ⟨c, hc⟩ : ∃ c, encodeChar c = [b₁, b₂, b₃] :=
          exists_encodeChar_three ⟨hlow₁, hhigh₁⟩ (by grind) (by grind) (by grind) ⟨hlow₃, hhigh₃⟩
        exact ⟨c, rest₃, by rw [hc]; rfl⟩
      · rw [decodeFrom_lead _ _ _ hshape] at h
        obtain ⟨b₂, rest₂, rfl, hlow₂, hhigh₂⟩ := exists_next h
        rw [decodeFrom_more _ _ _ hlow₂ hhigh₂] at h
        obtain ⟨b₃, rest₃, rfl, hlow₃, hhigh₃⟩ := exists_next h
        rw [decodeFrom_more _ _ _ hlow₃ hhigh₃] at h
        obtain ⟨b₄, rest₄, rfl, hlow₄, hhigh₄⟩ := exists_next h
        obtain ⟨c, hc⟩ : ∃ c, encodeChar c = [b₁, b₂, b₃, b₄] :=
          exists_encodeChar_four ⟨hlow₁, hhigh₁⟩ (by grind) (by grind) (by grind) ⟨hlow₃, hhigh₃⟩ ⟨hlow₄, hhigh₄⟩
        exact ⟨c, rest₄, by rw [hc]; rfl⟩

/-- The bytes of a character are read as the character. -/
theorem decodeFrom_encodeChar (c : Char) (rest : List UInt8) (done : Chars) (broken : Bool) :
    decodeFrom (encodeChar c ++ rest) none done broken = decodeFrom rest none (c :: done) broken := by
  have hvalid : c.toNat < 0xD800 ∨ 0xDFFF < c.toNat ∧ c.toNat < 0x110000 := c.valid
  have hnat : ∀ {n}, n = c.toNat → Char.ofNat n = c := fun h => h ▸ Char.ofNat_toNat c
  have hlater : ∀ n, (0x80 + n % 64).toUInt8.toNat = 0x80 + n % 64 := fun n => toNat_toUInt8 (by omega)
  unfold encodeChar
  dsimp only
  split_ifs with h₁ h₂ h₃
  · have hfeed : feed none c.toNat.toUInt8 = ([c], false, none) := by
      simp only [feed, sequenceShape, toNat_toUInt8 (show c.toNat < 256 by omega), if_pos h₁, Char.ofNat_toNat]
    rw [List.cons_append, decodeFrom_cons, hfeed, Bool.or_false]
    rfl
  · simp only [List.cons_append, List.nil_append]
    rw [decodeFrom_lead _ _ _ (sequenceShape_two (by omega) (by omega)), decodeFrom_last, hlater, hnat (by omega)]
    · rw [hlater]; omega
    · rw [hlater]; omega
  · simp only [List.cons_append, List.nil_append]
    rw [decodeFrom_lead _ _ _ (sequenceShape_three (by omega) (by omega)), decodeFrom_more, decodeFrom_last, hlater,
      hlater, hnat (by omega)]
    all_goals rw [hlater]
    all_goals grind
  · simp only [List.cons_append, List.nil_append]
    rw [decodeFrom_lead _ _ _ (sequenceShape_four (by omega) (by omega)), decodeFrom_more, decodeFrom_more,
      decodeFrom_last, hlater, hlater, hlater, hnat (by omega)]
    all_goals rw [hlater]
    all_goals grind

/-! ### Texts -/

theorem encodeChar_ne_nil (c : Char) : encodeChar c ≠ [] := by
  rw [encodeChar_eq_utf8EncodeChar]
  exact String.utf8EncodeChar_ne_nil

theorem decodeFrom_encode (s done : Chars) (broken : Bool) :
    decodeFrom (encode s) none done broken = (done.reverse ++ s, broken) := by
  induction s generalizing done with
  | nil =>
      rw [List.append_nil]
      rfl
  | cons c s ih => rw [encode_cons, decodeFrom_encodeChar, ih, List.reverse_cons, List.append_assoc]; rfl

theorem exists_encode_of_decodeFrom {bytes : List UInt8} {done : Chars}
    (h : (decodeFrom bytes none done false).2 = false) : ∃ s, bytes = encode s := by
  induction hlength : bytes.length using Nat.strongRecOn generalizing bytes done with
  | ind n ih =>
      by_cases hne : bytes = []
      · exact ⟨[], hne⟩
      obtain ⟨c, rest, rfl⟩ := exists_encodeChar_append hne h
      rw [decodeFrom_encodeChar] at h
      have hshorter : rest.length < n := by
        have hpos := List.length_pos_iff.mpr (encodeChar_ne_nil c)
        rw [List.length_append] at hlength
        omega
      obtain ⟨s, rfl⟩ := ih rest.length hshorter h rfl
      exact ⟨c :: s, (encode_cons c s).symm⟩

/-- Bytes are read as a text exactly if they are the bytes of the text. -/
theorem decode?_eq_some_iff {bytes : List UInt8} {s : Chars} : decode? bytes = some s ↔ bytes = encode s := by
  have hencode : ∀ s, decode? (encode s) = some s := fun s => by rw [decode?, decodeFrom_encode]; rfl
  constructor
  · intro h
    have hunbroken : (decodeFrom bytes none [] false).2 = false := by
      rw [decode?] at h
      split at h
      · rename_i heq
        rw [heq]
      · cases h
    obtain ⟨t, rfl⟩ := exists_encode_of_decodeFrom hunbroken
    rw [hencode, Option.some.injEq] at h
    rw [h]
  · rintro rfl
    exact hencode s

theorem decode?_eq_some_toList_iff {bytes : List UInt8} {text : String} :
    decode? bytes = some text.toList ↔ text.toByteArray = bytes.toByteArray := by
  have htext : text.toByteArray = (encode text.toList).toByteArray := by
    rw [toByteArray_encode, String.ofList_toList]
  rw [decode?_eq_some_iff, htext, List.toByteArray_inj, eq_comm]

/-! ### Broken parts -/

theorem replacement_mem_of_feed {pending : Option Pending} {b : UInt8} (h : (feed pending b).2.1 = true) :
    '\uFFFD' ∈ (feed pending b).1 := by
  cases pending with
  | none => cases hshape : sequenceShape b <;> grind [feed]
  | some p =>
      by_cases hrange : p.low ≤ b.toNat ∧ b.toNat ≤ p.high
      · rw [feed_within hrange.1 hrange.2] at h
        split at h <;> cases h
      · simp [feed, hrange]

theorem getD_finishedGlyphs (finished : Chars) (bad : Bool) :
    (finishedGlyphs finished bad).map (·.getD '\uFFFD') = finished := by
  rw [finishedGlyphs, List.map_map]
  refine (List.map_congr_left fun c _ => ?_).trans (List.map_id _)
  grind

theorem any_finishedGlyphs (pending : Option Pending) (b : UInt8) :
    (finishedGlyphs (feed pending b).1 (feed pending b).2.1).any Option.isNone = (feed pending b).2.1 := by
  cases hbad : (feed pending b).2.1 with
  | true => exact List.any_eq_true.mpr ⟨none, List.mem_map.mpr ⟨_, replacement_mem_of_feed hbad, rfl⟩, rfl⟩
  | false => simp [finishedGlyphs]

theorem glyphsFrom_cons (b : UInt8) (rest : List UInt8) (pending : Option Pending) :
    glyphsFrom (b :: rest) pending =
      finishedGlyphs (feed pending b).1 (feed pending b).2.1 ++ glyphsFrom rest (feed pending b).2.2 := rfl

/-- What is decoded are the glyphs, with the replacement character for each broken part. -/
theorem decodeFrom_eq_glyphsFrom (bytes : List UInt8) (pending : Option Pending) (done : Chars) (broken : Bool) :
    decodeFrom bytes pending done broken =
      (done.reverse ++ (glyphsFrom bytes pending).map (·.getD '\uFFFD'),
        broken || (glyphsFrom bytes pending).any Option.isNone) := by
  induction bytes generalizing pending done broken with
  | nil => cases pending <;> simp [decodeFrom, glyphsFrom]
  | cons b rest ih =>
      rw [decodeFrom_cons, ih, glyphsFrom_cons, List.map_append, List.any_append, getD_finishedGlyphs,
        any_finishedGlyphs]
      simp [Bool.or_assoc]

theorem glyphs_encode (s : Chars) : glyphs (encode s) = s.map some := by
  have hdecode := decodeFrom_encode s [] false
  rw [decodeFrom_eq_glyphsFrom, Prod.mk.injEq] at hdecode
  obtain ⟨hchars, hwhole⟩ := hdecode
  rw [← glyphs, List.reverse_nil, List.nil_append, List.nil_append] at hchars
  rw [← glyphs] at hwhole
  have hsome : ∀ g ∈ glyphs (encode s), some (g.getD '\uFFFD') = g := by
    intro g hg
    cases g with
    | none =>
        rw [Bool.false_or, List.any_eq_true.mpr ⟨none, hg, rfl⟩] at hwhole
        cases hwhole
    | some c => rfl
  calc glyphs (encode s)
      = (glyphs (encode s)).map fun g => some (g.getD '\uFFFD') :=
        ((List.map_congr_left hsome).trans (List.map_id _)).symm
    _ = ((glyphs (encode s)).map (·.getD '\uFFFD')).map some := List.map_map.symm
    _ = s.map some := by rw [hchars]

end Text

/-- A document is read from the bytes of its text as from the text. -/
theorem Json.Document.ofBytes_encode (s : Text.Chars) : ofBytes (Text.encode s) = read s := by
  rw [ofBytes, Text.glyphs_encode, read]

end SourceIndex
