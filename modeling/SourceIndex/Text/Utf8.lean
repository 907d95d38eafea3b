import SourceIndex.Text.Lines

/-!
Characters as bytes. The length of a text in bytes is the measure of every size limit; decoding is
strict, or replaces each maximal broken part by the replacement character, or keeps it as what it is.
-/

namespace SourceIndex.Text

/-- The number of bytes a text takes. -/
def byteLength : Chars → Nat
  | [] => 0
  | c :: rest => c.utf8Size + byteLength rest

def encodeChar (c : Char) : List UInt8 :=
  let n := c.toNat
  if n < 0x80 then [n.toUInt8]
  else if n < 0x800 then [(0xC0 + n / 64).toUInt8, (0x80 + n % 64).toUInt8]
  else if n < 0x10000 then
    [(0xE0 + n / 4096).toUInt8, (0x80 + n / 64 % 64).toUInt8, (0x80 + n % 64).toUInt8]
  else
    [(0xF0 + n / 262144).toUInt8, (0x80 + n / 4096 % 64).toUInt8, (0x80 + n / 64 % 64).toUInt8,
      (0x80 + n % 64).toUInt8]

def encode (s : Chars) : List UInt8 := s.flatMap encodeChar

/-- How a sequence that starts with a byte goes on: the count of later bytes, the bits of the first
byte and the range of the second one. Absent for bytes that start no character. -/
def sequenceShape (b : UInt8) : Option (Nat × Nat × Nat × Nat) :=
  let n := b.toNat
  if n < 0x80 then some (0, n, 0x80, 0xBF)
  else if 0xC2 ≤ n && n ≤ 0xDF then some (1, n - 0xC0, 0x80, 0xBF)
  else if n = 0xE0 then some (2, n - 0xE0, 0xA0, 0xBF)
  else if n = 0xED then some (2, n - 0xE0, 0x80, 0x9F)
  else if 0xE1 ≤ n && n ≤ 0xEF then some (2, n - 0xE0, 0x80, 0xBF)
  else if n = 0xF0 then some (3, n - 0xF0, 0x90, 0xBF)
  else if n = 0xF4 then some (3, n - 0xF0, 0x80, 0x8F)
  else if 0xF1 ≤ n && n ≤ 0xF3 then some (3, n - 0xF0, 0x80, 0xBF)
  else none

/-- What a decoder still expects of a character: later bytes, bits so far, range of the next byte. -/
structure Pending where
  missing : Nat
  bits : Nat
  low : Nat
  high : Nat

/-- One byte of a decoder: characters finished by it (a broken part counts as the replacement
character and sets the flag) and what is pending afterwards. -/
def feed (pending : Option Pending) (b : UInt8) : List Char × Bool × Option Pending :=
  let start : List Char × Bool × Option Pending :=
    match sequenceShape b with
    | none => (['\uFFFD'], true, none)
    | some (0, bits, _, _) => ([Char.ofNat bits], false, none)
    | some (missing, bits, low, high) => ([], false, some ⟨missing, bits, low, high⟩)
  match pending with
  | none => start
  | some p =>
    if p.low ≤ b.toNat && b.toNat ≤ p.high then
      let bits := p.bits * 64 + b.toNat % 64
      if p.missing ≤ 1 then ([Char.ofNat bits], false, none)
      else ([], false, some ⟨p.missing - 1, bits, 0x80, 0xBF⟩)
    else ('\uFFFD' :: start.1, true, start.2.2)

/-- The characters of the bytes, in reverse onto `done`, and whether some part was broken. -/
def decodeFrom : List UInt8 → Option Pending → Chars → Bool → Chars × Bool
  | [], none, done, broken => (done.reverse, broken)
  | [], some _, done, _ => (('\uFFFD' :: done).reverse, true)
  | b :: rest, pending, done, broken =>
    let (finished, bad, pending) := feed pending b
    decodeFrom rest pending (finished.reverse ++ done) (broken || bad)

/-- The text of the bytes, if they are well formed. -/
def decode? (bytes : List UInt8) : Option Chars :=
  match decodeFrom bytes none [] false with
  | (text, false) => some text
  | (_, true) => none

/-- The text of the bytes, with the replacement character for each broken part. -/
def decodeLossy (bytes : List UInt8) : Chars := (decodeFrom bytes none [] false).1

/-- A character of a text that is read, or a broken part of its bytes. -/
abbrev Glyph := Option Char

/-- What one byte has finished, as glyphs: along with a broken part only a character of one byte is. -/
def finishedGlyphs (finished : Chars) (bad : Bool) : List Glyph :=
  finished.map fun c => if bad && c = '\uFFFD' then none else some c

def glyphsFrom : List UInt8 → Option Pending → List Glyph
  | [], none => []
  | [], some _ => [none]
  | b :: rest, pending =>
    let (finished, bad, pending) := feed pending b
    finishedGlyphs finished bad ++ glyphsFrom rest pending

/-- The characters and the broken parts of the bytes. -/
def glyphs (bytes : List UInt8) : List Glyph := glyphsFrom bytes none

end SourceIndex.Text
