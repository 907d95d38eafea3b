import SourceIndex.Archive.Gzip
import SourceIndex.Text.Decimal
import SourceIndex.Text.Utf8

/-!
Headers of the members of a tar archive: blocks of 512 bytes with texts and octal numbers at fixed
places. Besides, what can go wrong with an archive, and the rules for a header that describes a file
with holes, whose parts are listed in order and add up to its size.
-/

namespace SourceIndex.Archive.Tar
open Text

inductive Fault where
  /-- The stream fails. -/
  | stream (fault : Stream.Fault)
  /-- The stream ends within a block. -/
  | cutBlock
  /-- The stream ends before a body does. -/
  | cutBody
  | checksum
  /-- A field that was read for some purpose is no text. -/
  | notText (field : List UInt8) (purpose : String)
  /-- A field that was read for some purpose is no number. -/
  | notNumber (field : Chars) (purpose : String)
  | overflow
  | twoNames
  | twoExtensions
  | nothingDescribed
  | holesInOther
  | holesUnaligned
  | holesOverlap
  | holesTooLong
  | holesCut
  | holesEndElsewhere
  | holesTooShort
  deriving DecidableEq, Repr

def Fault.text : Fault → String
  | .stream fault => fault.text
  | .cutBlock => "failed to read entire block"
  | .cutBody => "unexpected EOF during skip"
  | .checksum => "archive header checksum mismatch"
  | .notText field purpose =>
    "numeric field did not have utf-8 text: " ++ String.ofList (decodeLossy field) ++
      " when getting " ++ purpose
  | .notNumber field purpose =>
    "numeric field was not a number: " ++ String.ofList field ++ " when getting " ++ purpose
  | .overflow => "size overflow"
  | .twoNames => "two long name entries describing the same member"
  | .twoExtensions => "two pax extensions entries describing the same member"
  | .nothingDescribed =>
    "members found describing a future member but no future member found"
  | .holesInOther => "sparse entry type listed but not GNU header"
  | .holesUnaligned => "previous block in sparse file was not aligned to 512-byte boundary"
  | .holesOverlap => "out of order or overlapping sparse blocks"
  | .holesTooLong => "sparse file consumed more data than the header listed"
  | .holesCut => "failed to read extension"
  | .holesEndElsewhere => "mismatch in sparse file chunks and size in header"
  | .holesTooShort => "mismatch in sparse file chunks and entry size in header"

def blockSize : Nat := 512

abbrev Header := List UInt8

namespace Header

def field (header : Header) (start length : Nat) : List UInt8 := (header.drop start).take length

/-- A field up to its first zero byte. -/
def text (header : Header) (start length : Nat) : List UInt8 :=
  (header.field start length).takeWhile (· ≠ 0)

/-- A number in octal digits, maybe after a plus sign, with blanks around. -/
def octal (header : Header) (start length : Nat) (purpose : String) : Except Fault Nat :=
  match decode? (header.text start length) with
  | none => .error (.notText (header.text start length) purpose)
  | some s =>
    let digits := (stripStart? ['+'] (trim s)).getD (trim s)
    let n := digits.foldl (fun n c => n * 8 + (c.toNat - '0'.toNat)) 0
    if digits.isEmpty || !digits.all (fun c => '0' ≤ c && c ≤ '7') || maxWord64 < n then
      .error (.notNumber s purpose)
    else .ok n

def kind (header : Header) : Char := Char.ofNat (header.getD 156 0).toNat

def isUstar (header : Header) : Bool := header.field 257 8 = encode "ustar\x0000".toList

def isGnu (header : Header) : Bool := header.field 257 8 = encode "ustar  \x00".toList

/-- The path, which may be split into two fields. -/
def path (header : Header) : List UInt8 :=
  let name := header.text 0 100
  let front := header.text 345 155
  if header.isUstar && !front.isEmpty then front ++ '/'.toNat.toUInt8 :: name else name

/-- A purpose for which a field of the header is read. -/
def purpose (header : Header) (what : String) : String :=
  what ++ " for " ++ String.ofList (decodeLossy header.path)

/-- The size: in octal, or the last eight bytes if the highest bit is set. -/
def size (header : Header) : Except Fault Nat :=
  let bytes := header.field 124 12
  if 128 ≤ (bytes.headD 0).toNat then
    .ok ((bytes.drop 4).foldl (fun n b => n * 256 + b.toNat) 0)
  else header.octal 124 12 (header.purpose "size")

/-- The sum of all bytes, with blanks in place of the sum itself. -/
def checksum (header : Header) : Nat :=
  let sum (bytes : List UInt8) : Nat := bytes.foldl (fun n b => n + b.toNat) 0
  sum (header.take 148) + 8 * 32 + sum (header.drop 156)

/-- Refuse a header whose checksum is not the one that is given. -/
def check (header : Header) : Except Fault Unit := do
  let given ← header.octal 148 8 (header.purpose "cksum")
  if given ≠ header.checksum then throw .checksum

end Header

/-! ### Files with holes -/

/-- How far the parts of a file with holes have come: the end of the last one, and how many bytes of
the body are left for others. -/
structure Parts where
  stop : Nat
  left : Nat

namespace Parts

/-- The part that is listed at a place, of a file with a body of so many bytes. -/
def add (size : Nat) (block : List UInt8) (place : Nat) (parts : Parts) : Except Fault Parts :=
  if (block.getD place 0).toNat = 0 || (block.getD (place + 12) 0).toNat = 0 then pure parts
  else do
    let offset ← Header.octal block place 12 "offset from sparse header"
    let length ← Header.octal block (place + 12) 12 "length from sparse header"
    if length ≠ 0 && (size - parts.left) % blockSize ≠ 0 then throw .holesUnaligned
    if offset < parts.stop then throw .holesOverlap
    if parts.left < length then throw .holesTooLong
    pure ⟨offset + length, parts.left - length⟩

/-- So many parts that are listed from a place on. -/
def addAll (size : Nat) (block : List UInt8) (place count : Nat) (parts : Parts) :
    Except Fault Parts :=
  (List.range count).foldlM (fun parts i => parts.add size block (place + 24 * i)) parts

/-- The byte at a place says that another block goes on with the list. -/
def goesOn (block : List UInt8) (place : Nat) : Bool := (block.getD place 0).toNat = 1

/-- The parts end where the header says, and they take the whole body. -/
def finish (header : Header) (parts : Parts) : Except Fault Unit := do
  let stop ← header.octal 483 12 (header.purpose "real_size")
  if stop ≠ parts.stop then throw .holesEndElsewhere
  if 0 < parts.left then throw .holesTooShort

end Parts
end SourceIndex.Archive.Tar
