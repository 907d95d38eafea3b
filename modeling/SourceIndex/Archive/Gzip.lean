import SourceIndex.Archive.Inflate
import SourceIndex.Digest.Crc32

/-!
The first member of a gzip file as a stream that is read from its start: the bytes that can be read,
and whether reading past them comes to a regular end or fails. The checksum and the length are only
looked at by a reader that goes to the end.
-/

namespace SourceIndex.Archive

inductive Stream.Fault where
  /-- The file does not start as it should. -/
  | notGzip
  /-- A text of the header is too long. -/
  | longText
  /-- The header or the trailer ends too early. -/
  | cut
  /-- The compressed data end too early. -/
  | incomplete
  | corrupt
  /-- A checksum or the length is not the one that is given. -/
  | mismatch
  deriving DecidableEq, Repr

def Stream.Fault.text : Stream.Fault → String
  | .notGzip => "invalid gzip header"
  | .longText => "gzip header field too long"
  | .cut => "unexpected end of file"
  | .incomplete => "incomplete deflate stream"
  | .corrupt => "corrupt deflate stream"
  | .mismatch => "corrupt gzip stream does not have a matching checksum"

structure Stream where
  bytes : List UInt8
  /-- What reading past the bytes fails with; if absent, the stream ends there. -/
  fault : Option Stream.Fault
  deriving DecidableEq, Repr

namespace Gzip

/-- A number of a list of bytes, the lowest first. -/
def littleEndian (bytes : List UInt8) : Nat :=
  bytes.foldr (fun b n => n * 256 + b.toNat) 0

def hasFlag (flags : UInt8) (i : Nat) : Bool := flags.toNat.testBit i

/-- Skip the extra field. -/
def skipExtra (bytes : List UInt8) : Except Stream.Fault (List UInt8) :=
  let length := littleEndian (bytes.take 2)
  if bytes.length < length + 2 then .error .cut else .ok (bytes.drop (length + 2))

/-- How many bytes a text of the header has at most. -/
def maxText : Nat := 65535

/-- Skip a text and the zero byte after it. -/
def skipText (bytes : List UInt8) : Except Stream.Fault (List UInt8) :=
  if maxText < (bytes.takeWhile (· ≠ 0)).length then .error .longText
  else
    match bytes.dropWhile (· ≠ 0) with
    | [] => .error .cut
    | _ :: rest => .ok rest

/-- Skip the checksum of the header, which stands before the bytes that are left. -/
def skipCheck (file bytes : List UInt8) : Except Stream.Fault (List UInt8) :=
  let header := file.take (file.length - bytes.length)
  if bytes.length < 2 then .error .cut
  else if littleEndian (bytes.take 2) ≠ (Crc32.checksum header).toNat % 65536 then .error .mismatch
  else .ok (bytes.drop 2)

/-- How many bytes of a header are always there. -/
def fixedHeader : Nat := 10

/-- The bytes after the header. -/
def afterHeader (file : List UInt8) : Except Stream.Fault (List UInt8) :=
  if file.length < fixedHeader then .error .cut
  else
    match file with
    | 0x1F :: 0x8B :: 8 :: flags :: _ =>
      if 32 ≤ flags.toNat then .error .notGzip
      else do
        let rest := file.drop fixedHeader
        let rest ← if hasFlag flags 2 then skipExtra rest else pure rest
        let rest ← if hasFlag flags 3 then skipText rest else pure rest
        let rest ← if hasFlag flags 4 then skipText rest else pure rest
        if hasFlag flags 1 then skipCheck file rest else pure rest
    | _ => .error .notGzip

/-- What is wrong with the trailer that follows the compressed data of an output. -/
def trailerFault (trailer output : List UInt8) : Option Stream.Fault :=
  if trailer.length < 8 then some .cut
  else if littleEndian (trailer.take 4) = (Crc32.checksum output).toNat &&
      littleEndian ((trailer.drop 4).take 4) = output.length % Nat.pow 2 32 then none
  else some .mismatch

/-- Decompressed bytes are handed out in windows of this size, and a window in which the data go wrong
is not handed out. -/
def window : Nat := 32768

/-- Read a gzip file. -/
def read (file : List UInt8) : Stream :=
  match afterHeader file with
  | .error fault => ⟨[], some fault⟩
  | .ok body =>
    match Inflate.inflate body.toArray 0 with
    | (.ok next, output) => ⟨output.toList, trailerFault (body.drop next) output.toList⟩
    | (.error .cut, output) => ⟨output.toList, some .incomplete⟩
    | (.error .corrupt, output) =>
      ⟨output.toList.take (output.size / window * window), some .corrupt⟩

end Gzip
end SourceIndex.Archive
