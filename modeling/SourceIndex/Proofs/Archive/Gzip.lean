import SourceIndex.Archive.Gzip
import SourceIndex.Proofs.Step

/-! Files of one stored block. Bits are read from the lowest of a byte to the highest, so from a whole byte on as many
bits as some bytes have give the number that these bytes spell. A stored block spells its own length and is handed
out as it stands. So a file that holds one gives back what it was made of, and its checksum agrees whatever the
checksum is. -/

namespace SourceIndex.Archive
open Step (outcome outcome_bind_of_ok outcome_bind_ok outcome_pure outcome_modify outcome_get)

namespace Gzip

/-- The lowest bytes of a number, the lowest first. -/
def lowBytes : Nat → Nat → List UInt8
  | 0, _ => []
  | k + 1, n => n.toUInt8 :: lowBytes k (n / 256)

theorem length_lowBytes (k n : Nat) : (lowBytes k n).length = k := by
  induction k generalizing n with
  | zero => rfl
  | succ k ih => rw [lowBytes, List.length_cons, ih]

theorem littleEndian_cons (b : UInt8) (bytes : List UInt8) :
    littleEndian (b :: bytes) = b.toNat + 256 * littleEndian bytes := by
  rw [littleEndian, List.foldr_cons, Nat.add_comm, Nat.mul_comm]
  rfl

theorem littleEndian_lowBytes (k n : Nat) : littleEndian (lowBytes k n) = n % Nat.pow 256 k := by
  induction k generalizing n with
  | zero => exact (Nat.mod_one n).symm
  | succ k ih =>
      have hbyte : n.toUInt8.toNat = n % 256 := rfl
      rw [lowBytes, littleEndian_cons, ih, hbyte, Nat.pow_eq, Nat.pow_eq, Nat.pow_succ', Nat.mod_mul]

end Gzip

namespace Inflate

variable {input : Array UInt8} {b : UInt8} {i : Nat} (output : Array UInt8)

theorem outcome_bit (position : Nat) (hbyte : input[position / 8]? = some b) :
    outcome (bit input) ⟨position, output⟩ =
      (.ok (b.toNat / Nat.pow 2 (position % 8) % 2), ⟨position + 1, output⟩) := by
  rw [bit, outcome_bind_of_ok (outcome_get _)]
  simp only [hbyte]
  rfl

/-- Some bits of a byte, after the lowest `k`. -/
theorem outcome_bits_within (hbyte : input[i]? = some b) (k : Nat) {n : Nat} (hn : k + n ≤ 8) :
    outcome (bits input n) ⟨8 * i + k, output⟩ =
      (.ok (b.toNat / Nat.pow 2 k % Nat.pow 2 n), ⟨8 * i + (k + n), output⟩) := by
  induction n generalizing k with
  | zero =>
      rw [bits, outcome_pure, show Nat.pow 2 0 = 1 from rfl, Nat.mod_one]
      rfl
  | succ n ih =>
      have hplace : (8 * i + k) / 8 = i := by omega
      have hoffset : (8 * i + k) % 8 = k := by omega
      have hvalue : b.toNat / Nat.pow 2 k % 2 + 2 * (b.toNat / Nat.pow 2 (k + 1) % Nat.pow 2 n) =
          b.toNat / Nat.pow 2 k % Nat.pow 2 (n + 1) := by
        simp only [Nat.pow_eq, Nat.pow_succ' (n := n), Nat.mod_mul, Nat.div_div_eq_div_mul, Nat.pow_succ]
      rw [bits, outcome_bind_of_ok (outcome_bit output _ (hplace.symm ▸ hbyte)), hoffset, Nat.add_assoc,
        outcome_bind_of_ok (ih (k + 1) (by omega)), outcome_pure, hvalue, Nat.add_assoc k, Nat.add_comm 1]

theorem outcome_byte (hbyte : input[i]? = some b) :
    outcome (bits input 8) ⟨8 * i, output⟩ = (.ok b.toNat, ⟨8 * (i + 1), output⟩) := by
  have hvalue : b.toNat / Nat.pow 2 0 % Nat.pow 2 8 = b.toNat :=
    (congrArg (· % Nat.pow 2 8) (Nat.div_one b.toNat)).trans (Nat.mod_eq_of_lt b.toNat_lt)
  have hbits := outcome_bits_within output hbyte 0 (show 0 + 8 ≤ 8 by decide)
  rwa [hvalue] at hbits

/-- The next byte of some bytes, and what follows it. -/
theorem next_of_drop {bytes : List UInt8} (h : input.toList.drop i = b :: bytes) :
    input[i]? = some b ∧ input.toList.drop (i + 1) = bytes := by
  constructor
  · rw [← Array.getElem?_toList, ← Nat.add_zero i, ← List.getElem?_drop, h]
    rfl
  · rw [← List.drop_drop, h]
    rfl

/-- What follows the bytes that come next. -/
theorem drop_of_drop {bytes rest : List UInt8} (h : input.toList.drop i = bytes ++ rest) :
    input.toList.drop (i + bytes.length) = rest := by
  rw [← List.drop_drop, h, List.drop_left]

theorem outcome_bits_append {m n low high : Nat} {s s' s'' : State}
    (hlow : outcome (bits input m) s = (.ok low, s')) (hhigh : outcome (bits input n) s' = (.ok high, s'')) :
    outcome (bits input (m + n)) s = (.ok (low + Nat.pow 2 m * high), s'') := by
  induction m generalizing low s with
  | zero =>
      rw [bits, outcome_pure, Prod.mk.injEq, Except.ok.injEq] at hlow
      obtain ⟨rfl, rfl⟩ := hlow
      rw [Nat.zero_add, hhigh, Nat.zero_add, show Nat.pow 2 0 = 1 from rfl, Nat.one_mul]
  | succ m ih =>
      rw [bits] at hlow
      obtain ⟨first, s₁, hfirst, hlow⟩ := outcome_bind_ok hlow
      obtain ⟨later, s₂, hlater, hlow⟩ := outcome_bind_ok hlow
      rw [outcome_pure, Prod.mk.injEq, Except.ok.injEq] at hlow
      obtain ⟨rfl, rfl⟩ := hlow
      have hdouble : 2 * Nat.pow 2 m = Nat.pow 2 (m + 1) := Nat.pow_succ'.symm
      rw [Nat.succ_add, bits, outcome_bind_of_ok hfirst, outcome_bind_of_ok (ih hlater), outcome_pure, Nat.mul_add,
        ← Nat.mul_assoc, hdouble, Nat.add_assoc]

/-- The bits of some bytes give the number that they spell. -/
theorem outcome_bits {bytes rest : List UInt8} (h : input.toList.drop i = bytes ++ rest) :
    outcome (bits input (8 * bytes.length)) ⟨8 * i, output⟩ =
      (.ok (Gzip.littleEndian bytes), ⟨8 * (i + bytes.length), output⟩) := by
  induction bytes generalizing i with
  | nil => rfl
  | cons b bytes ih =>
      obtain ⟨hbyte, hlater⟩ := next_of_drop h
      have hshift : Nat.pow 2 8 = 256 := rfl
      rw [List.length_cons, Nat.mul_succ, Nat.add_comm (8 * bytes.length),
        outcome_bits_append (outcome_byte output hbyte) (ih hlater), Gzip.littleEndian_cons, hshift, Nat.add_assoc,
        Nat.add_comm 1]

theorem outcome_number {k n : Nat} {rest : List UInt8} (hn : n < Nat.pow 256 k)
    (h : input.toList.drop i = Gzip.lowBytes k n ++ rest) :
    outcome (bits input (8 * k)) ⟨8 * i, output⟩ = (.ok n, ⟨8 * (i + k), output⟩) := by
  have hbits := outcome_bits output h
  rwa [Gzip.length_lowBytes, Gzip.littleEndian_lowBytes, Nat.mod_eq_of_lt hn] at hbits

theorem outcome_verbatim {bytes rest : List UInt8} (h : input.toList.drop i = bytes ++ rest) :
    outcome (verbatim input bytes.length) ⟨8 * i, output⟩ =
      (.ok (), ⟨8 * (i + bytes.length), output ++ bytes⟩) := by
  induction bytes generalizing i output with
  | nil =>
      rw [Array.appendList_nil]
      rfl
  | cons b bytes ih =>
      obtain ⟨hbyte, hlater⟩ := next_of_drop h
      have hemit : outcome (emit b.toNat.toUInt8) ⟨8 * (i + 1), output⟩ = (.ok (), ⟨8 * (i + 1), output.push b⟩) := by
        rw [emit, outcome_modify, Nat.toUInt8_eq, UInt8.ofNat_toNat]
      rw [List.length_cons, verbatim, outcome_bind_of_ok (outcome_byte output hbyte), outcome_bind_of_ok hemit,
        ih _ hlater, Nat.add_assoc, Nat.add_comm 1, Array.appendList_cons]

/-- One stored block of at most 65535 bytes, the last one of its stream. -/
def storedBlock (bytes : List UInt8) : List UInt8 :=
  1 :: (Gzip.lowBytes 2 bytes.length ++ (Gzip.lowBytes 2 (0xFFFF - bytes.length) ++ bytes))

theorem length_storedBlock (bytes : List UInt8) : (storedBlock bytes).length = 5 + bytes.length := by
  simp only [storedBlock, List.length_cons, List.length_append, Gzip.length_lowBytes]
  omega

theorem outcome_stored {bytes : List UInt8} (hfew : bytes.length ≤ 0xFFFF) (rest : List UInt8) :
    outcome (stored (storedBlock bytes ++ rest).toArray) ⟨3, #[]⟩ =
      (.ok (), ⟨8 * (5 + bytes.length), bytes.toArray⟩) := by
  generalize hinput : (storedBlock bytes ++ rest).toArray = input
  have hblock : input.toList.drop 1 = Gzip.lowBytes 2 bytes.length ++
      (Gzip.lowBytes 2 (0xFFFF - bytes.length) ++ (bytes ++ rest)) := by
    rw [← hinput, storedBlock]
    simp
  have hcomplement := drop_of_drop hblock
  rw [Gzip.length_lowBytes] at hcomplement
  have hbytes := drop_of_drop hcomplement
  rw [Gzip.length_lowBytes] at hbytes
  have hsum : bytes.length + (0xFFFF - bytes.length) = 0xFFFF := Nat.add_sub_cancel' hfew
  have hlength : outcome (bits input 16) ⟨8 * 1, #[]⟩ = (.ok bytes.length, ⟨8 * 3, #[]⟩) :=
    outcome_number #[] (Nat.lt_succ_of_le hfew) hblock
  have hrest : outcome (bits input 16) ⟨8 * 3, #[]⟩ = (.ok (0xFFFF - bytes.length), ⟨8 * 5, #[]⟩) :=
    outcome_number #[] (Nat.lt_succ_of_le (Nat.sub_le _ _)) hcomplement
  rw [stored, outcome_bind_of_ok (outcome_modify _ _)]
  refine (outcome_bind_of_ok hlength).trans ((outcome_bind_of_ok hrest).trans ?_)
  rw [if_neg (not_not_intro hsum)]
  exact (outcome_verbatim #[] hbytes).trans (by simp)

theorem inflate_storedBlock {bytes : List UInt8} (hfew : bytes.length ≤ 0xFFFF) (rest : List UInt8) :
    inflate (storedBlock bytes ++ rest).toArray 0 = (.ok (5 + bytes.length), bytes.toArray) := by
  have hstored := outcome_stored hfew rest
  generalize hinput : (storedBlock bytes ++ rest).toArray = input at hstored ⊢
  have hfirst : input[0]? = some 1 := by
    rw [← hinput]
    rfl
  have hblocks : outcome (blocks input (8 * input.size + 1)) ⟨8 * 0, #[]⟩ =
      (.ok (), ⟨8 * (5 + bytes.length), bytes.toArray⟩) := by
    have hlast : outcome (bit input) ⟨8 * 0, #[]⟩ = (.ok 1, ⟨1, #[]⟩) := outcome_bit #[] 0 hfirst
    have hkind : outcome (bits input 2) ⟨1, #[]⟩ = (.ok 0, ⟨3, #[]⟩) :=
      outcome_bits_within #[] hfirst 1 (show 1 + 2 ≤ 8 by decide)
    rw [blocks, outcome_bind_of_ok hlast, outcome_bind_of_ok hkind]
    exact outcome_bind_of_ok hstored
  have hend : (8 * (5 + bytes.length) + 7) / 8 = 5 + bytes.length := by omega
  rw [outcome] at hblocks
  simp only [inflate, hblocks, Step.map_ok, hend]

end Inflate

namespace Gzip

/-- What follows the compressed data of some bytes. -/
def trailer (bytes : List UInt8) : List UInt8 :=
  lowBytes 4 (Crc32.checksum bytes).toNat ++ lowBytes 4 bytes.length

theorem trailerFault_trailer (bytes : List UInt8) : trailerFault (trailer bytes) bytes = none := by
  have hlength : ¬ (trailer bytes).length < 8 := by
    rw [trailer, List.length_append, length_lowBytes, length_lowBytes]
    decide
  have htake : (trailer bytes).take 4 = lowBytes 4 (Crc32.checksum bytes).toNat :=
    List.take_left' (length_lowBytes 4 _)
  have hdrop : ((trailer bytes).drop 4).take 4 = lowBytes 4 bytes.length := by
    rw [trailer, List.drop_left' (length_lowBytes 4 _), List.take_of_length_le (Nat.le_of_eq (length_lowBytes 4 _))]
  have hchecksum : (Crc32.checksum bytes).toNat % Nat.pow 256 4 = (Crc32.checksum bytes).toNat :=
    Nat.mod_eq_of_lt (Crc32.checksum bytes).toNat_lt
  rw [trailerFault, if_neg hlength, htake, hdrop, littleEndian_lowBytes, littleEndian_lowBytes, hchecksum, if_pos]
  simp

/-- A file of one stored block. -/
def storedFile (bytes : List UInt8) : List UInt8 :=
  0x1F :: 0x8B :: 8 :: 0 :: 0 :: 0 :: 0 :: 0 :: 0 :: 0xFF :: (Inflate.storedBlock bytes ++ trailer bytes)

theorem read_storedFile {bytes : List UInt8} (hfew : bytes.length ≤ 0xFFFF) :
    read (storedFile bytes) = ⟨bytes, none⟩ := by
  have hinflate := Inflate.inflate_storedBlock hfew (trailer bytes)
  generalize hbody : Inflate.storedBlock bytes ++ trailer bytes = body at hinflate
  have hheader : afterHeader (storedFile bytes) = .ok body := by
    have hlong : ¬ (0x1F :: 0x8B :: 8 :: 0 :: 0 :: 0 :: 0 :: 0 :: 0 :: 0xFF :: body).length < fixedHeader :=
      Nat.not_lt.mpr (Nat.le_add_left 10 body.length)
    rw [storedFile, hbody, afterHeader, if_neg hlong]
    rfl
  have hdrop : body.drop (5 + bytes.length) = trailer bytes := by
    rw [← hbody, ← Inflate.length_storedBlock, List.drop_left]
  simp only [read, hheader, hinflate, hdrop, trailerFault_trailer]

end Gzip
end SourceIndex.Archive
