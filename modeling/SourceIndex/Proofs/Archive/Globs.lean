import SourceIndex.Archive.Glob
import SourceIndex.Proofs.Path
import SourceIndex.Proofs.Text.Utf8

/-! What a glob matches. The matcher goes through the tokens with what is left to accept; here every token
describes the bytes that it stands for, and a glob describes what its tokens describe one after the other. -/

namespace SourceIndex.Archive.Glob
open SourceIndex.Path Text

/-- The byte that separates the components of a path. -/
def slash : UInt8 := '/'.toNat.toUInt8

mutual

/-- The bytes that a token stands for. -/
def Token.Describes : Token → List UInt8 → Prop
  | .literal c, s => s = encodeChar c
  | .any, s => ∃ b, s = [b]
  | .many, _ => True
  | .leading, s => s = [] ∨ ∃ t, s = t ++ [slash]
  | .trailing, s => ∃ t, s = slash :: t
  | .between, s => s = [slash] ∨ ∃ t, s = slash :: (t ++ [slash])
  | .oneOf negated ranges, s => ∃ b, s = [b] ∧ ranges.any (rangeHolds b) ≠ negated
  | .either branches, s =>
    areVoid branches = true ∧ s = [] ∨ areVoid branches = false ∧ DescribesSome branches s

/-- The bytes that tokens stand for one after the other. -/
def Describes : List Token → List UInt8 → Prop
  | [], s => s = []
  | token :: rest, s => ∃ u v, s = u ++ v ∧ token.Describes u ∧ Describes rest v

/-- The bytes that one of the branches stands for, of those that are not void. -/
def DescribesSome : List (List Token) → List UInt8 → Prop
  | [], _ => False
  | branch :: rest, s => isVoid branch = false ∧ Describes branch s ∨ DescribesSome rest s

end

/-- The whole of the bytes is what the glob stands for; a doubled star alone stands for everything. -/
def Matches (glob : Glob) (s : List UInt8) : Prop := glob = [.leading] ∨ Describes glob s

/-! ### The matcher -/

/-- Some bytes of the kind stand at the front, and what follows them is accepted. -/
def Front (describes : List UInt8 → Prop) (accept : List UInt8 → Bool) (s : List UInt8) : Prop :=
  ∃ u v, s = u ++ v ∧ describes u ∧ accept v = true

section Steps

variable {accept : List UInt8 → Bool} {s : List UInt8}

theorem someEnd_iff : someEnd accept s = true ↔ ∃ u v, s = u ++ v ∧ accept v = true := by
  induction s with
  | nil =>
      constructor
      · exact fun h => ⟨[], [], rfl, h⟩
      · rintro ⟨u, v, heq, h⟩
        rwa [(List.append_eq_nil_iff.mp heq.symm).2] at h
  | cons b s ih =>
      rw [someEnd, Bool.or_eq_true, ih]
      constructor
      · rintro (h | ⟨u, v, rfl, h⟩)
        · exact ⟨[], b :: s, rfl, h⟩
        · exact ⟨b :: u, v, rfl, h⟩
      · rintro ⟨u, v, heq, h⟩
        cases u with
        | nil => exact Or.inl (heq ▸ h)
        | cons c u =>
            cases heq
            exact Or.inr ⟨u, v, rfl, h⟩

theorem afterSlash_iff : afterSlash accept s = true ↔ ∃ v, s = slash :: v ∧ accept v = true := by
  cases s with
  | nil => simp [afterSlash]
  | cons b s =>
      simp only [afterSlash, Bool.and_eq_true, decide_eq_true_eq]
      constructor
      · rintro ⟨rfl, h⟩
        exact ⟨s, rfl, h⟩
      · rintro ⟨v, heq, h⟩
        cases heq
        exact ⟨rfl, h⟩

theorem afterText_iff {literal : List UInt8} :
    afterText literal accept s = true ↔ ∃ v, s = literal ++ v ∧ accept v = true := by
  rw [afterText, Bool.and_eq_true, List.isPrefixOf_iff_prefix]
  constructor
  · rintro ⟨⟨v, rfl⟩, h⟩
    rw [List.drop_left] at h
    exact ⟨v, rfl, h⟩
  · rintro ⟨v, rfl, h⟩
    exact ⟨⟨v, rfl⟩, by rwa [List.drop_left]⟩

end Steps

mutual

theorem Token.run_iff (token : Token) (accept : List UInt8 → Bool) (s : List UInt8) :
    token.run accept s = true ↔ Front token.Describes accept s := by
  cases token with
  | literal c =>
      rw [Token.run, afterText_iff]
      constructor
      · rintro ⟨v, rfl, h⟩
        exact ⟨encodeChar c, v, rfl, rfl, h⟩
      · rintro ⟨-, v, rfl, rfl, h⟩
        exact ⟨v, rfl, h⟩
  | any =>
      constructor
      · intro h
        cases s with
        | nil => cases h
        | cons b s => exact ⟨[b], s, rfl, ⟨b, rfl⟩, h⟩
      · rintro ⟨-, v, rfl, ⟨b, rfl⟩, h⟩
        exact h
  | many =>
      rw [Token.run, someEnd_iff]
      constructor
      · rintro ⟨u, v, rfl, h⟩
        exact ⟨u, v, rfl, trivial, h⟩
      · rintro ⟨u, v, rfl, -, h⟩
        exact ⟨u, v, rfl, h⟩
  | leading =>
      simp only [Token.run, someEnd_iff, afterSlash_iff, Bool.or_eq_true]
      constructor
      · rintro (h | ⟨u, -, rfl, v, rfl, h⟩)
        · exact ⟨[], s, rfl, Or.inl rfl, h⟩
        · exact ⟨u ++ [slash], v, by simp, Or.inr ⟨u, rfl⟩, h⟩
      · rintro ⟨-, v, rfl, rfl | ⟨u, rfl⟩, h⟩
        · exact Or.inl h
        · exact Or.inr ⟨u, slash :: v, by simp, v, rfl, h⟩
  | trailing =>
      simp only [Token.run, someEnd_iff, afterSlash_iff]
      constructor
      · rintro ⟨-, rfl, u, v, rfl, h⟩
        exact ⟨slash :: u, v, rfl, ⟨u, rfl⟩, h⟩
      · rintro ⟨-, v, rfl, ⟨u, rfl⟩, h⟩
        exact ⟨u ++ v, rfl, u, v, rfl, h⟩
  | between =>
      simp only [Token.run, someEnd_iff, afterSlash_iff, Bool.or_eq_true]
      constructor
      · rintro ⟨v, rfl, h | ⟨u, -, rfl, v, rfl, h⟩⟩
        · exact ⟨[slash], v, rfl, Or.inl rfl, h⟩
        · exact ⟨slash :: (u ++ [slash]), v, by simp, Or.inr ⟨u, rfl⟩, h⟩
      · rintro ⟨-, v, rfl, rfl | ⟨u, rfl⟩, h⟩
        · exact ⟨v, rfl, Or.inl h⟩
        · exact ⟨u ++ slash :: v, by simp, Or.inr ⟨u, slash :: v, rfl, v, rfl, h⟩⟩
  | oneOf negated ranges =>
      constructor
      · intro h
        cases s with
        | nil => cases h
        | cons b s =>
            obtain ⟨hb, h⟩ := (Bool.and_eq_true _ _).mp h
            exact ⟨[b], s, rfl, ⟨b, rfl, bne_iff_ne.mp hb⟩, h⟩
      · rintro ⟨-, v, rfl, ⟨b, rfl, hb⟩, h⟩
        exact (Bool.and_eq_true _ _).mpr ⟨bne_iff_ne.mpr hb, h⟩
  | either branches =>
      rw [Token.run]
      cases hvoid : areVoid branches with
      | true =>
          constructor
          · exact fun h => ⟨[], s, rfl, Or.inl ⟨hvoid, rfl⟩, h⟩
          · rintro ⟨u, v, rfl, ⟨-, rfl⟩ | ⟨hother, -⟩, h⟩
            · exact h
            · rw [hvoid] at hother
              cases hother
      | false =>
          rw [if_neg Bool.false_ne_true, runEither_iff]
          constructor
          · rintro ⟨u, v, rfl, hu, h⟩
            exact ⟨u, v, rfl, Or.inr ⟨hvoid, hu⟩, h⟩
          · rintro ⟨u, v, rfl, ⟨hother, -⟩ | ⟨-, hu⟩, h⟩
            · rw [hvoid] at hother
              cases hother
            · exact ⟨u, v, rfl, hu, h⟩

theorem run_iff (tokens : List Token) (accept : List UInt8 → Bool) (s : List UInt8) :
    run tokens accept s = true ↔ Front (Describes tokens) accept s := by
  cases tokens with
  | nil =>
      constructor
      · exact fun h => ⟨[], s, rfl, rfl, h⟩
      · rintro ⟨-, v, rfl, rfl, h⟩
        exact h
  | cons token rest =>
      rw [run, Token.run_iff token]
      constructor
      · rintro ⟨t, w, rfl, ht, h⟩
        obtain ⟨u, v, rfl, hu, h⟩ := (run_iff rest accept w).mp h
        exact ⟨t ++ u, v, (List.append_assoc t u v).symm, ⟨t, u, rfl, ht, hu⟩, h⟩
      · rintro ⟨-, v, rfl, ⟨t, u, rfl, ht, hu⟩, h⟩
        have hrest : run rest accept (u ++ v) = true := (run_iff rest accept (u ++ v)).mpr ⟨u, v, rfl, hu, h⟩
        exact ⟨t, u ++ v, List.append_assoc t u v, ht, hrest⟩

theorem runEither_iff (branches : List (List Token)) (accept : List UInt8 → Bool) (s : List UInt8) :
    runEither branches accept s = true ↔ Front (DescribesSome branches) accept s := by
  cases branches with
  | nil =>
      constructor
      · exact nofun
      · rintro ⟨u, v, rfl, hnone, h⟩
        cases hnone
  | cons branch rest =>
      rw [runEither, Bool.or_eq_true, Bool.and_eq_true, Bool.not_eq_true', run_iff branch, runEither_iff rest]
      constructor
      · rintro (⟨hvoid, u, v, rfl, hu, h⟩ | ⟨u, v, rfl, hu, h⟩)
        · exact ⟨u, v, rfl, Or.inl ⟨hvoid, hu⟩, h⟩
        · exact ⟨u, v, rfl, Or.inr hu, h⟩
      · rintro ⟨u, v, rfl, ⟨hvoid, hu⟩ | hu, h⟩
        · exact Or.inl ⟨hvoid, u, v, rfl, hu, h⟩
        · exact Or.inr ⟨u, v, rfl, hu, h⟩

end

/-- The matcher accepts what the glob describes. -/
theorem holds_iff {glob : Glob} {s : List UInt8} : glob.holds s = true ↔ glob.Matches s := by
  rw [holds.eq_def, Matches]
  split
  · simp
  · rename_i hother
    rw [run_iff]
    constructor
    · rintro ⟨u, v, rfl, hu, hend⟩
      rw [List.isEmpty_iff] at hend
      rw [hend, List.append_nil]
      exact Or.inr hu
    · rintro (heq | hs)
      · exact absurd heq hother
      · exact ⟨s, [], (List.append_nil s).symm, hs, rfl⟩

/-! ### Texts between doubled stars -/

/-- The tokens of a text that is matched as it is. -/
def literals (s : Chars) : List Token := s.map .literal

theorem describes_literals_append {s : Chars} {rest : List Token} {bytes : List UInt8} :
    Describes (literals s ++ rest) bytes ↔ ∃ v, bytes = encode s ++ v ∧ Describes rest v := by
  induction s generalizing bytes with
  | nil => simp [literals, encode]
  | cons c s ih =>
      constructor
      · rintro ⟨-, v, rfl, rfl, hv⟩
        obtain ⟨w, rfl, hw⟩ := ih.mp hv
        exact ⟨w, (List.append_assoc _ _ _).symm, hw⟩
      · rintro ⟨w, rfl, hw⟩
        exact ⟨encodeChar c, encode s ++ w, List.append_assoc _ _ _, rfl, ih.mpr ⟨w, rfl, hw⟩⟩

theorem describes_literals {s : Chars} {bytes : List UInt8} : Describes (literals s) bytes ↔ bytes = encode s := by
  rw [← List.append_nil (literals s), describes_literals_append]
  constructor
  · rintro ⟨v, rfl, rfl⟩
    exact List.append_nil _
  · exact fun h => ⟨[], by rw [h, List.append_nil], rfl⟩

theorem leading_describes_encode {front : Chars} (h : Opens front) : Token.leading.Describes (encode front) := by
  rcases h with rfl | ⟨before, rfl⟩
  · exact Or.inl rfl
  · exact Or.inr ⟨encode before, encode_append before ['/']⟩

/-- A doubled star at the front leaves the path from the start of a component on. -/
theorem exists_opens_of_leading {path : Chars} {u v : List UInt8} (hpath : encode path = u ++ v)
    (hu : Token.leading.Describes u) : ∃ front rest, path = front ++ rest ∧ Opens front ∧ encode rest = v := by
  rcases hu with rfl | ⟨t, rfl⟩
  · exact ⟨[], path, rfl, Or.inl rfl, hpath⟩
  · rw [List.append_assoc] at hpath
    obtain ⟨before, rest, rfl, -, hrest⟩ := exists_of_encode_eq_append_cons (c := '/') (by decide) hpath
    exact ⟨before ++ ['/'], rest, by simp, Or.inr ⟨before, rfl⟩, hrest⟩

variable {path : Chars}

/-- The glob for what is below components of a name. -/
def below (name : Chars) : Glob := .leading :: (literals name ++ [.trailing])

/-- The glob for last components of a name. -/
def named (name : Chars) : Glob := .leading :: literals name

/-- The glob for what ends with a text. -/
def ending (text : Chars) : Glob := .leading :: .many :: literals text

theorem below_matches_iff {name : Chars} :
    (below name).Matches (encode path) ↔ ∃ front rest, path = front ++ name ++ '/' :: rest ∧ Opens front := by
  constructor
  · rintro (halone | ⟨u, v, hpath, hu, hv⟩)
    · simp [below] at halone
    · obtain ⟨front, rest, rfl, hfront, rfl⟩ := exists_opens_of_leading hpath hu
      obtain ⟨w, hrest, -, -, rfl, ⟨t, rfl⟩, rfl⟩ := describes_literals_append.mp hv
      rw [List.append_nil] at hrest
      obtain ⟨name', rest', rfl, hname, -⟩ := exists_of_encode_eq_append_cons (c := '/') (by decide) hrest
      obtain rfl := encode_injective hname
      exact ⟨front, rest', by simp, hfront⟩
  · rintro ⟨front, rest, rfl, hfront⟩
    have htrailing : Describes [.trailing] (slash :: encode rest) :=
      ⟨slash :: encode rest, [], (List.append_nil _).symm, ⟨encode rest, rfl⟩, rfl⟩
    have hbytes : encode (front ++ name ++ '/' :: rest) = encode front ++ (encode name ++ slash :: encode rest) := by
      rw [List.append_assoc, encode_append, encode_append]
      rfl
    rw [hbytes]
    exact Or.inr ⟨_, _, rfl, leading_describes_encode hfront, describes_literals_append.mpr ⟨_, rfl, htrailing⟩⟩

theorem named_matches_iff {name : Chars} (hname : name ≠ []) :
    (named name).Matches (encode path) ↔ ∃ front, path = front ++ name ∧ Opens front := by
  constructor
  · rintro (halone | ⟨u, v, hpath, hu, hv⟩)
    · simp [named, literals, hname] at halone
    · obtain ⟨front, rest, rfl, hfront, rfl⟩ := exists_opens_of_leading hpath hu
      obtain rfl := encode_injective (describes_literals.mp hv)
      exact ⟨front, rfl, hfront⟩
  · rintro ⟨front, rfl, hfront⟩
    rw [encode_append]
    exact Or.inr ⟨_, _, rfl, leading_describes_encode hfront, describes_literals.mpr rfl⟩

theorem ending_matches_iff {text : Chars} :
    (ending ('.' :: text)).Matches (encode path) ↔ '.' :: text <:+ path := by
  constructor
  · rintro (halone | ⟨u, v, hpath, -, w, t, rfl, -, ht⟩)
    · simp [ending] at halone
    · rw [describes_literals.mp ht, ← List.append_assoc] at hpath
      obtain ⟨front, rest, rfl, -, hrest⟩ := exists_of_encode_eq_append_cons (c := '.') (by decide) hpath
      obtain rfl := encode_injective hrest
      exact ⟨front, rfl⟩
  · rintro ⟨front, rfl⟩
    rw [encode_append]
    exact Or.inr ⟨[], _, rfl, Or.inl rfl, encode front, _, rfl, trivial, describes_literals.mpr rfl⟩

/-! ### Reading -/

/-- A character that stands for itself wherever it is. -/
def isPlain (c : Char) : Bool := !(['?', '*', '[', '\x7b', '\x7d', '\\'].contains c)

theorem readFrom_plain {c : Char} (hc : isPlain c = true) (fuel : Nat) (previous : Option Char) (tokens : List Token)
    (rest : Chars) :
    readFrom (fuel + 1) previous tokens [] (c :: rest) = readFrom fuel (some c) (.literal c :: tokens) [] rest := by
  simp only [isPlain, Bool.not_eq_true', List.contains_eq_mem, decide_eq_false_iff_not, List.mem_cons,
    List.not_mem_nil, or_false, not_or] at hc
  obtain ⟨hany, hstar, hclass, hopen, hclose, hescape⟩ := hc
  rw [readFrom.eq_def]
  simp only
  split <;> simp_all

/-- A run of plain characters is read as it is. -/
theorem readFrom_plains {s : Chars} (hs : s.all isPlain = true) (fuel : Nat) (previous : Option Char)
    (tokens : List Token) (rest : Chars) :
    readFrom (s.length + fuel) previous tokens [] (s ++ rest) =
      readFrom fuel (s.getLast?.or previous) ((literals s).reverse ++ tokens) [] rest := by
  induction s generalizing previous tokens with
  | nil => simp [literals]
  | cons c s ih =>
      obtain ⟨hc, hs⟩ := Bool.and_eq_true_iff.mp hs
      have hlast : (c :: s).getLast?.or previous = s.getLast?.or (some c) := by
        rw [List.getLast?_cons]
        cases s.getLast? <;> rfl
      rw [List.cons_append, List.length_cons, Nat.add_right_comm, readFrom_plain hc, ih hs, hlast]
      simp [literals]

/-- Plain characters up to the end of the text. -/
theorem readFrom_plains_end {s : Chars} (hs : s.all isPlain = true) (fuel : Nat) (previous : Option Char)
    (tokens : List Token) :
    readFrom (s.length + (fuel + 1)) previous tokens [] s = some (tokens.reverse ++ literals s) := by
  have hread := readFrom_plains hs (fuel + 1) previous tokens []
  rw [List.append_nil] at hread
  rw [hread, readFrom]
  simp

theorem readFrom_star {rest : Chars} (hrest : rest.head? ≠ some '*') (fuel : Nat) (previous : Option Char)
    (tokens : List Token) :
    readFrom (fuel + 1) previous tokens [] ('*' :: rest) = readFrom fuel (some '*') (.many :: tokens) [] rest := by
  cases rest with
  | nil => rfl
  | cons c rest =>
      rw [readFrom.eq_def]
      simp only
      split <;> simp_all

theorem readFrom_trailing (fuel : Nat) (tokens : List Token) :
    readFrom (fuel + 2) (some '/') (.literal '/' :: tokens) [] ['*', '*'] = some (tokens.reverse ++ [.trailing]) := by
  rw [← List.reverse_cons]
  rfl

theorem parse?_leading (rest : Chars) :
    parse? ("**/" ++ String.ofList rest) = readFrom (rest.length + 3) (some '/') [.leading] [] rest := by
  have hstars : readStars none false [] ('/' :: rest) = ([.leading], rest) := rfl
  have htext : ("**/" ++ String.ofList rest).toList = '*' :: '*' :: '/' :: rest := by simp
  rw [parse?, htext]
  simp [readFrom, hstars]

variable {text : String} (htext : text.toList.all isPlain = true)
include htext

theorem parse?_below : parse? ("**/" ++ text ++ "/**") = some (below text.toList) := by
  have hrest : "**/" ++ text ++ "/**" = "**/" ++ String.ofList (text.toList ++ ['/'] ++ ['*', '*']) := by
    rw [← String.toList_inj]
    simp
  have hplain : (text.toList ++ ['/']).all isPlain = true := by
    rw [List.all_append, htext]
    rfl
  have hfuel : (text.toList ++ ['/'] ++ ['*', '*']).length + 3 = (text.toList ++ ['/']).length + (3 + 2) := by simp
  have htokens : (literals (text.toList ++ ['/'])).reverse ++ [.leading] =
      .literal '/' :: ((literals text.toList).reverse ++ [.leading]) := by simp [literals]
  rw [hrest, parse?_leading, hfuel, readFrom_plains hplain, List.getLast?_concat, htokens, Option.some_or,
    readFrom_trailing]
  simp [below]

theorem parse?_named : parse? ("**/" ++ text) = some (named text.toList) := by
  have hread := parse?_leading text.toList
  rw [String.ofList_toList] at hread
  rw [hread, readFrom_plains_end htext]
  rfl

theorem parse?_ending : parse? ("**/*" ++ text) = some (ending text.toList) := by
  have hrest : "**/*" ++ text = "**/" ++ String.ofList ('*' :: text.toList) := by
    rw [← String.toList_inj]
    simp
  have hhead : text.toList.head? ≠ some '*' := by
    intro hstar
    exact absurd (List.all_eq_true.mp htext '*' (List.mem_of_mem_head? hstar)) (by decide)
  rw [hrest, parse?_leading, List.length_cons, readFrom_star hhead, readFrom_plains_end htext]
  rfl

end SourceIndex.Archive.Glob
