import Mathlib.Data.List.Infix
import SourceIndex.Text.Lowercase

/-! Words within a text in lower case. Outside ASCII only two characters have an ASCII letter in their lower case: the
Kelvin sign has k, and the capital I with a dot has i with a mark behind it. So a word in ASCII letters that holds no
k and does not end in i stands in the lower case of a text exactly if the text itself holds it in letters of either
case. -/

namespace SourceIndex.Text

theorem containsText_iff {part s : Chars} : containsText part s = true ↔ part <:+: s := by
  induction s with
  | nil => rw [containsText, List.isEmpty_iff, List.infix_nil]
  | cons c rest ih => rw [containsText, Bool.or_eq_true, List.isPrefixOf_iff_prefix, ih, List.infix_cons_iff]

/-- The text holds the word in letters of either case. -/
def Mentions (s word : Chars) : Prop := ∃ before part after, s = before ++ part ++ after ∧ asciiLower part = word

/-- A letter of ASCII in lower case, other than k. -/
def isPlainLetter (c : Char) : Bool := c.isLower && c != 'k'

/-- A word that the lower case of a text holds exactly where the text mentions it. -/
def isPlainWord (word : Chars) : Bool := word.all isPlainLetter && !word.isEmpty && word.getLast? != some 'i'

theorem isPlainLetter_iff {c : Char} : isPlainLetter c = true ↔ 97 ≤ c.toNat ∧ c.toNat ≤ 122 ∧ c ≠ 'k' := by
  have hlower : c.isLower = (decide (97 ≤ c.val) && decide (c.val ≤ 122)) := rfl
  simp [isPlainLetter, hlower, UInt32.le_iff_toNat_le, ← Char.toNat_val, and_assoc]

/-! ### Single characters -/

theorem lowerRuns_high {run : CaseRun} (h : run ∈ lowerRuns.toList) :
    128 ≤ (run.first : Int) + run.offset ∨ run.first = 8490 ∧ run.last = 8490 ∧ run.offset = -8383 := by
  have hall : lowerRuns.toList.all (fun run => decide (128 ≤ (run.first : Int) + run.offset ∨
      run.first = 8490 ∧ run.last = 8490 ∧ run.offset = -8383)) = true := by
    decide +kernel
  exact of_decide_eq_true (List.all_eq_true.mp hall run h)

theorem toNat_ofNat (n : Nat) : (Char.ofNat n).toNat = if n.isValidChar then n else 0 := by
  by_cases hvalid : n.isValidChar
  · have hchar : Char.ofNat n = Char.ofNatAux n hvalid := dif_pos hvalid
    rw [hchar, if_pos hvalid]
    rfl
  · have hchar : Char.ofNat n = '\x00' := dif_neg hvalid
    rw [hchar, if_neg hvalid]
    rfl

theorem not_isPlainLetter_ofNat {n : Nat} (h : 128 ≤ n ∨ n = 107) : isPlainLetter (Char.ofNat n) = false := by
  rw [Bool.eq_false_iff]
  intro hplain
  obtain ⟨hle, hle', hk⟩ := isPlainLetter_iff.mp hplain
  rcases h with hhigh | rfl
  · rw [toNat_ofNat] at hle hle'
    by_cases hvalid : n.isValidChar
    · rw [if_pos hvalid] at hle'
      omega
    · rw [if_neg hvalid] at hle
      omega
  · exact hk rfl

/-- A character outside ASCII does not become a plain letter. -/
theorem not_isPlainLetter_lowerChar {c : Char} (h : 128 ≤ c.toNat) : isPlainLetter (lowerChar c) = false := by
  have hself : isPlainLetter c = false := by
    rw [Bool.eq_false_iff]
    intro hplain
    have hle := (isPlainLetter_iff.mp hplain).2.1
    omega
  rw [lowerChar, if_neg (by omega)]
  cases hfound : lowerRuns.find? fun run => run.first ≤ c.toNat && c.toNat ≤ run.last with
  | none => exact hself
  | some run =>
      have hmem : run ∈ lowerRuns.toList := Array.mem_toList_iff.mpr (Array.mem_of_find?_eq_some hfound)
      have hwithin := Array.find?_some hfound
      simp only [Bool.and_eq_true, decide_eq_true_eq] at hwithin
      simp only
      split
      · apply not_isPlainLetter_ofNat
        rcases lowerRuns_high hmem with hhigh | ⟨hfirst, hlast, hoffset⟩ <;> omega
      · exact hself

theorem toLower_of_high {c : Char} (h : 128 ≤ c.toNat) : c.toLower = c := by
  unfold Char.toLower
  rw [dif_neg]
  intro hupper
  have hle : c.toNat ≤ 90 := UInt32.le_iff_toNat_le.mp hupper.2
  omega

/-- The lower case of a single character is a plain letter exactly if it is that of ASCII. -/
theorem lowerChar_eq_iff {c d : Char} (hd : isPlainLetter d = true) : lowerChar c = d ↔ c.toLower = d := by
  by_cases hascii : c.toNat < 128
  · rw [lowerChar, if_pos hascii]
  · have hhigh : 128 ≤ c.toNat := by omega
    have hself := (isPlainLetter_iff.mp hd).2.1
    refine iff_of_false ?_ ?_
    · rintro rfl
      rw [not_isPlainLetter_lowerChar hhigh] at hd
      cases hd
    · rintro rfl
      rw [toLower_of_high hhigh] at hself
      omega

/-! ### Texts -/

/-- What stands for a character in the lower case of a text, unless it is a plain letter. -/
theorem lowercaseAfter_cons (before : Chars) (c : Char) (rest : Chars) :
    lowercaseAfter before (c :: rest) = 'i' :: Char.ofNat 0x307 :: lowercaseAfter (c :: before) rest ∧ c = 'İ' ∨
      ∃ x, lowercaseAfter before (c :: rest) = x :: lowercaseAfter (c :: before) rest ∧
        ∀ d, isPlainLetter d = true → (x = d ↔ c.toLower = d) := by
  by_cases hdotted : c = 'İ'
  · exact Or.inl ⟨by rw [lowercaseAfter, if_pos hdotted]; rfl, hdotted⟩
  · right
    by_cases hsigma : c = 'Σ'
    · refine ⟨if nextIsCased before && !nextIsCased rest then 'ς' else 'σ', ?_, fun d hd => ?_⟩
      · rw [lowercaseAfter, if_neg hdotted, if_pos hsigma]
        rfl
      · have hle := (isPlainLetter_iff.mp hd).2.1
        refine iff_of_false ?_ ?_
        · rintro rfl
          split at hle <;> revert hle <;> decide
        · rintro rfl
          rw [hsigma] at hle
          revert hle
          decide
    · refine ⟨lowerChar c, ?_, fun d hd => lowerChar_eq_iff hd⟩
      rw [lowercaseAfter, if_neg hdotted, if_neg hsigma]
      rfl

/-- No plain word starts with the mark in the lower case of a capital I with a dot. -/
theorem not_prefix_mark {word rest : Chars} (hletters : word.all isPlainLetter = true) (hne : word ≠ []) :
    ¬ word <+: Char.ofNat 0x307 :: rest := by
  intro hprefix
  cases word with
  | nil => exact hne rfl
  | cons mark word =>
      rw [List.all_cons, (List.cons_prefix_cons.mp hprefix).1] at hletters
      revert hletters
      simp [isPlainLetter]

/-- The lower case of a text starts with a plain word exactly if the text starts with it in letters of either case. -/
theorem prefix_lowercaseAfter_iff {word : Chars} (hletters : word.all isPlainLetter = true)
    (hlast : word.getLast? ≠ some 'i') (before s : Chars) :
    word <+: lowercaseAfter before s ↔ ∃ part after, s = part ++ after ∧ asciiLower part = word := by
  induction word generalizing before s with
  | nil => exact iff_of_true List.nil_prefix ⟨[], s, rfl, rfl⟩
  | cons d word ih =>
      rw [List.all_cons, Bool.and_eq_true] at hletters
      cases s with
      | nil =>
          refine iff_of_false (by simp [lowercaseAfter]) ?_
          rintro ⟨part, after, hs, hpart⟩
          rw [(List.append_eq_nil_iff.mp hs.symm).1] at hpart
          cases hpart
      | cons c rest =>
          have hsplit : (∃ part after, c :: rest = part ++ after ∧ asciiLower part = d :: word) ↔
              c.toLower = d ∧ ∃ part after, rest = part ++ after ∧ asciiLower part = word := by
            constructor
            · rintro ⟨part, after, hs, hpart⟩
              cases part with
              | nil => cases hpart
              | cons c' part =>
                  rw [List.cons_append, List.cons.injEq] at hs
                  rw [asciiLower, List.map_cons, List.cons.injEq] at hpart
                  exact ⟨by rw [hs.1, hpart.1], part, after, hs.2, hpart.2⟩
            · rintro ⟨hc, part, after, rfl, rfl⟩
              exact ⟨c :: part, after, rfl, by rw [asciiLower, List.map_cons, hc]; rfl⟩
          rw [hsplit]
          rcases lowercaseAfter_cons before c rest with ⟨hlower, rfl⟩ | ⟨x, hlower, hx⟩
          · rw [hlower, List.cons_prefix_cons]
            refine iff_of_false ?_ ?_
            · rintro ⟨rfl, hword⟩
              refine not_prefix_mark hletters.2 ?_ hword
              rintro rfl
              exact hlast rfl
            · rintro ⟨rfl, -⟩
              have hplain := hletters.1
              revert hplain
              decide
          · have htail : word.getLast? ≠ some 'i' := by
              intro hi
              apply hlast
              rw [List.getLast?_cons, hi]
              rfl
            rw [hlower, List.cons_prefix_cons, eq_comm, hx d hletters.1, ih hletters.2 htail]

theorem mentions_cons {c : Char} {rest word : Chars} : Mentions (c :: rest) word ↔
    (∃ part after, c :: rest = part ++ after ∧ asciiLower part = word) ∨ Mentions rest word := by
  constructor
  · rintro ⟨before, part, after, hs, hpart⟩
    cases before with
    | nil => exact Or.inl ⟨part, after, by simpa using hs, hpart⟩
    | cons c' before =>
        rw [List.cons_append, List.cons_append, List.cons.injEq] at hs
        exact Or.inr ⟨before, part, after, hs.2, hpart⟩
  · rintro (⟨part, after, hs, hpart⟩ | ⟨before, part, after, rfl, hpart⟩)
    · exact ⟨[], part, after, by simpa using hs, hpart⟩
    · exact ⟨c :: before, part, after, by simp, hpart⟩

/-- The lower case of a text holds a plain word exactly if the text mentions it. -/
theorem containsText_lowercase_iff {word : Chars} (h : isPlainWord word = true) (s : Chars) :
    containsText word (lowercase s) = true ↔ Mentions s word := by
  rw [isPlainWord, Bool.and_eq_true, Bool.and_eq_true] at h
  obtain ⟨⟨hletters, hsome⟩, hlast⟩ := h
  have hne : word ≠ [] := by simpa using hsome
  have hend : word.getLast? ≠ some 'i' := by simpa using hlast
  have hafter : ∀ before, word <:+: lowercaseAfter before s ↔ Mentions s word := by
    induction s with
    | nil =>
        intro before
        refine iff_of_false (fun hinfix => hne (List.infix_nil.mp hinfix)) ?_
        rintro ⟨_, part, _, hs, hpart⟩
        have hnil : part = [] := by simp_all
        rw [hnil] at hpart
        exact hne hpart.symm
    | cons c rest ih =>
        intro before
        rw [mentions_cons, ← prefix_lowercaseAfter_iff hletters hend before, ← ih (c :: before)]
        rcases lowercaseAfter_cons before c rest with ⟨hlower, -⟩ | ⟨x, hlower, -⟩
        · rw [hlower, List.infix_cons_iff, List.infix_cons_iff]
          simp only [not_prefix_mark hletters hne, false_or]
        · rw [hlower, List.infix_cons_iff]
  rw [containsText_iff]
  exact hafter []

end SourceIndex.Text
