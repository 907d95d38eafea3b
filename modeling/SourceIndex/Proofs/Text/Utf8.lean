import SourceIndex.Text.Utf8

/-! The bytes of a text. They are those that the standard library gives it, so that different texts have
different bytes; and a byte below 128 stands for the character of that number alone. -/

namespace SourceIndex.Text

private theorem toNat_lt_of_valid (c : Char) : c.toNat < 0x110000 := by
  rcases c.valid with h | ⟨_, h⟩
  · exact Nat.lt_trans h (by decide)
  · exact h

theorem encodeChar_eq_utf8EncodeChar (c : Char) : encodeChar c = String.utf8EncodeChar c := by
  have hvalue : c.val.toNat = c.toNat := rfl
  have hbound := toNat_lt_of_valid c
  simp only [encodeChar, String.utf8EncodeChar, hvalue, Nat.toUInt8_eq]
  by_cases h1 : c.toNat ≤ 127
  · have h1' : c.toNat < 0x80 := by omega
    rw [if_pos h1', if_pos h1]
  have h1' : ¬c.toNat < 0x80 := by omega
  rw [if_neg h1', if_neg h1]
  by_cases h2 : c.toNat ≤ 2047
  · have h2' : c.toNat < 0x800 := by omega
    have hlead : 0xC0 + c.toNat / 64 = c.toNat / 64 % 32 + 192 := by omega
    rw [if_pos h2', if_pos h2, hlead, Nat.add_comm 0x80]
  have h2' : ¬c.toNat < 0x800 := by omega
  rw [if_neg h2', if_neg h2]
  by_cases h3 : c.toNat ≤ 65535
  · have h3' : c.toNat < 0x10000 := by omega
    have hlead : 0xE0 + c.toNat / 4096 = c.toNat / 4096 % 16 + 224 := by omega
    rw [if_pos h3', if_pos h3, hlead, Nat.add_comm 0x80, Nat.add_comm 0x80]
  have h3' : ¬c.toNat < 0x10000 := by omega
  have hlead : 0xF0 + c.toNat / 262144 = c.toNat / 262144 % 8 + 240 := by omega
  rw [if_neg h3', if_neg h3, hlead, Nat.add_comm 0x80, Nat.add_comm 0x80, Nat.add_comm 0x80]

/-- The bytes of a text are those of the string made of its characters. -/
theorem toByteArray_encode (s : Chars) : (encode s).toByteArray = (String.ofList s).toByteArray := by
  have hencode : encode s = s.flatMap String.utf8EncodeChar :=
    congrArg (s.flatMap ·) (funext encodeChar_eq_utf8EncodeChar)
  rw [hencode, String.toByteArray_ofList, List.utf8Encode]

theorem encode_injective {s t : Chars} (h : encode s = encode t) : s = t := by
  have hbytes : (String.ofList s).toByteArray = (String.ofList t).toByteArray := by
    rw [← toByteArray_encode, ← toByteArray_encode, h]
  exact String.ofList_inj.mp (String.toByteArray_inj.mp hbytes)

theorem eq_of_encode_toList {s t : String} (h : encode s.toList = encode t.toList) : s = t :=
  String.toList_inj.mp (encode_injective h)

/-- A byte below 128 in the bytes of a character is the number of the character. -/
theorem toNat_eq_of_mem_encodeChar {b : UInt8} {c : Char} (hb : b.toNat < 0x80) (h : b ∈ encodeChar c) :
    c.toNat = b.toNat := by
  have hbound := toNat_lt_of_valid c
  have hbyte : ∀ n : Nat, n < 256 → (n.toUInt8).toNat = n := fun n hn => by
    rw [Nat.toUInt8_eq, UInt8.toNat_ofNat', Nat.mod_eq_of_lt hn]
  unfold encodeChar at h
  simp only at h
  split at h
  · rw [List.mem_singleton.mp h, hbyte _ (by omega)]
  · -- All bytes of a longer sequence are 128 or more.
    have hhigh : ∀ n : Nat, 0x80 ≤ n → n < 256 → b ≠ n.toUInt8 := by
      rintro n hlow hn rfl
      rw [hbyte n hn] at hb
      omega
    split at h
    · simp only [List.mem_cons, List.not_mem_nil, or_false] at h
      rcases h with h | h <;> exact absurd h (hhigh _ (by omega) (by omega))
    · split at h
      · simp only [List.mem_cons, List.not_mem_nil, or_false] at h
        rcases h with h | h | h <;> exact absurd h (hhigh _ (by omega) (by omega))
      · simp only [List.mem_cons, List.not_mem_nil, or_false] at h
        rcases h with h | h | h | h <;> exact absurd h (hhigh _ (by omega) (by omega))

theorem exists_of_mem_encode {b : UInt8} {s : Chars} (hb : b.toNat < 0x80) (h : b ∈ encode s) :
    ∃ c ∈ s, c.toNat = b.toNat := by
  obtain ⟨c, hc, hmem⟩ := List.mem_flatMap.mp h
  exact ⟨c, hc, toNat_eq_of_mem_encodeChar hb hmem⟩


theorem encode_cons (c : Char) (s : Chars) : encode (c :: s) = encodeChar c ++ encode s := List.flatMap_cons

theorem encode_append (s t : Chars) : encode (s ++ t) = encode s ++ encode t := List.flatMap_append

/-- A byte below 128 cuts the bytes of a text where its character cuts the text. -/
theorem exists_of_encode_eq_append_cons {s : Chars} {c : Char} {u v : List UInt8} (hc : c.toNat < 0x80)
    (h : encode s = u ++ c.toNat.toUInt8 :: v) : ∃ t w, s = t ++ c :: w ∧ encode t = u ∧ encode w = v := by
  have hbyte : c.toNat.toUInt8.toNat = c.toNat := by
    rw [Nat.toUInt8_eq, UInt8.toNat_ofNat', Nat.mod_eq_of_lt (by omega)]
  induction s generalizing u with
  | nil => cases u <;> cases h
  | cons d s ih =>
      rw [encode_cons] at h
      have hlater (u' : List UInt8) (hu : u = encodeChar d ++ u') (hs : encode s = u' ++ c.toNat.toUInt8 :: v) :
          ∃ t w, d :: s = t ++ c :: w ∧ encode t = u ∧ encode w = v := by
        obtain ⟨t, w, rfl, rfl, rfl⟩ := ih hs
        exact ⟨d :: t, w, rfl, by rw [hu]; exact encode_cons d t, rfl⟩
      rcases List.append_eq_append_iff.mp h with ⟨u', hu, hs⟩ | ⟨u', hd, hs⟩
      · exact hlater u' hu hs
      · cases u' with
        | nil => exact hlater [] (by simpa using hd.symm) hs.symm
        | cons b u' =>
            obtain ⟨rfl, hv⟩ := List.cons.inj hs
            have hmem : c.toNat.toUInt8 ∈ encodeChar d := by simp [hd]
            have hdc : d.toNat = c.toNat := (toNat_eq_of_mem_encodeChar (by omega) hmem).trans hbyte
            obtain rfl := Char.toNat_inj.mp hdc
            have hchar : encodeChar d = [d.toNat.toUInt8] := if_pos hc
            rw [hchar] at hd
            rcases List.append_eq_singleton_iff.mp hd.symm with ⟨rfl, htail⟩ | ⟨-, hnil⟩
            · obtain rfl := (List.cons.inj htail).2
              exact ⟨[], s, rfl, rfl, hv.symm⟩
            · cases hnil

end SourceIndex.Text
