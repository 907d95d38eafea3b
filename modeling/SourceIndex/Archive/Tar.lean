import SourceIndex.Archive.Tar.Header

/-!
Tar archives in a stream of bytes: blocks of 512 bytes, a header before the body of each member, and a
block of zeros or the end of the stream after the last one. A member may describe the next one: its
long name, or fields of its own for path and size.
-/

namespace SourceIndex.Archive

namespace Stream

/-- What reading fails with that wants bytes after the end, and comes to it. -/
def faultOr (stream : Stream) (atEnd : Tar.Fault) : Tar.Fault :=
  (stream.fault.map Tar.Fault.stream).getD atEnd

/-- The next block and the stream after it; absent at the end of the stream. -/
def block (stream : Stream) : Except Tar.Fault (Option (List UInt8 × Stream)) :=
  if Tar.blockSize ≤ stream.bytes.length then
    .ok (some (stream.bytes.take Tar.blockSize, ⟨stream.bytes.drop Tar.blockSize, stream.fault⟩))
  else if stream.bytes.isEmpty && stream.fault.isNone then .ok none
  else .error (stream.faultOr .cutBlock)

/-- The next bytes, or less of them if the stream ends before. -/
def upTo (size : Nat) (stream : Stream) : Except Fault (List UInt8) :=
  match stream.fault with
  | some fault => if size ≤ stream.bytes.length then .ok (stream.bytes.take size) else .error fault
  | none => .ok (stream.bytes.take size)

/-- The stream after so many bytes, which must all be there. -/
def skip (size : Nat) (stream : Stream) : Except Tar.Fault Stream :=
  if size ≤ stream.bytes.length then .ok ⟨stream.bytes.drop size, stream.fault⟩
  else .error (stream.faultOr .cutBody)

end Stream

namespace Tar
open Text

structure Member where
  isFile : Bool
  path : List UInt8
  size : Nat
  /-- The bytes, or what reading them fails with. -/
  body : Except Stream.Fault (List UInt8)

structure Listing where
  members : List Member
  /-- What reading fails with after the members; if absent, they are all there are. -/
  fault : Option Fault

/-! ### Fields of the next member -/

/-- A line of fields without its line end: its length with the line end, a blank, a key, an equals
sign and a value. -/
def fieldOf? (line : List UInt8) : Option (List UInt8 × List UInt8) := do
  let digits ← decode? (line.takeWhile (· ≠ ' '.toNat.toUInt8))
  let rest := line.dropWhile (· ≠ ' '.toNat.toUInt8)
  if rest.isEmpty || parseNat? maxWord64 digits ≠ some (line.length + 1) then none
  let rest := rest.drop 1
  let value := rest.dropWhile (· ≠ '='.toNat.toUInt8)
  if value.isEmpty then none
  else some (rest.takeWhile (· ≠ '='.toNat.toUInt8), value.drop 1)

/-- The lines of a list of bytes that follow the reversed beginning of a line. -/
def linesFrom : List UInt8 → List UInt8 → List (List UInt8)
  | [], line => [line.reverse]
  | b :: rest, line =>
    if b = 10 then line.reverse :: linesFrom rest [] else linesFrom rest (b :: line)

/-- The lines of fields: up to the first empty one. -/
def fieldLines (extensions : List UInt8) : List (List UInt8) :=
  (linesFrom extensions []).takeWhile (!·.isEmpty)

/-- The path of the next member; lines that are no fields are skipped. -/
def extendedPath? (extensions : List UInt8) : Option (List UInt8) :=
  ((fieldLines extensions).filterMap fieldOf?).lookup (encode "path".toList)

/-- The size of the next member, unless a line before it is no field. -/
def extendedSize? (extensions : List UInt8) : Option Nat := do
  let isSize (line : List UInt8) : Bool :=
    (fieldOf? line).all fun field => field.1 = encode "size".toList
  let field ← fieldOf? (← (fieldLines extensions).find? isSize)
  parseNat? maxWord64 (← decode? field.2)

/-- What members before a member say about it. -/
structure Description where
  name : Option (List UInt8)
  /-- There is a long name for the target of a link. -/
  target : Bool
  extensions : Option (List UInt8)

namespace Description

def none : Description := ⟨.none, false, .none⟩

def isNone (description : Description) : Bool :=
  description.name.isNone && !description.target && description.extensions.isNone

/-- A size of zero gives way to the one among the fields. -/
def size (description : Description) (header : Header) : Except Fault Nat := do
  match ← header.size with
  | 0 => pure ((description.extensions.bind extendedSize?).getD 0)
  | n => pure n

/-- A long name without a zero byte at its end, or a path among the fields, or the header's own. -/
def path (description : Description) (header : Header) : List UInt8 :=
  match description.name with
  | some name => if name.getLast? = some 0 then name.dropLast else name
  | .none => ((description.extensions.bind extendedPath?)).getD header.path

/-- Nothing is said twice. -/
def twice? (description : Description) (kind : Char) : Option Fault :=
  if kind = 'L' then if description.name.isSome then some .twoNames else .none
  else if kind = 'K' then if description.target then some .twoNames else .none
  else if description.extensions.isSome then some .twoExtensions
  else .none

/-- What is known after one more member that describes the next one. -/
def extend (description : Description) (kind : Char) (body : List UInt8) : Description :=
  if kind = 'L' then { description with name := some body }
  else if kind = 'K' then { description with target := true }
  else { description with extensions := some body }

end Description

/-- The header is of a member that describes the next one. -/
def describesNext (header : Header) : Bool :=
  (header.isUstar || header.isGnu) && ['L', 'K', 'x'].contains header.kind

/-- The blocks that go on with the list of a file with holes; the stream bounds their number. -/
def moreParts (size : Nat) : Nat → Parts → Stream → Except Fault (Parts × Stream)
  | 0, _, _ => throw .holesCut
  | fuel + 1, parts, stream => do
    match ← stream.block with
    | none => throw .holesCut
    | some (block, stream) =>
      let parts ← parts.addAll size block 0 21
      if Parts.goesOn block 504 then moreParts size fuel parts stream else pure (parts, stream)

/-- The stream after the list of the parts of a member, if it is a file with holes. -/
def afterParts (header : Header) (size : Nat) (stream : Stream) : Except Fault Stream := do
  if Header.kind header = 'S' then
    if !Header.isGnu header then throw .holesInOther
    let parts ← Parts.addAll size header 386 4 ⟨0, size⟩
    let (parts, stream) ←
      if Parts.goesOn header 482 then moreParts size (stream.bytes.length + 1) parts stream
      else pure (parts, stream)
    parts.finish header
    pure stream
  else pure stream

/-- The size of a body that starts after the header, unless the place after it is out of range. -/
def bodySize (description : Description) (header : Header) : Except Fault Nat := do
  Header.check header
  let size ← description.size header
  if maxWord64 < size + (blockSize - 1) then throw .overflow else pure size

/-- The header of a member, the size of its body and the stream from there on; absent after the last
member. -/
def nextHeader (description : Description) (stream : Stream) :
    Except Fault (Option (Header × Nat × Stream)) := do
  match ← stream.block with
  | none => pure none
  | some (header, stream) =>
    if header.all (· = 0) then pure none
    else
      let size ← bodySize description header
      pure (some (header, size, stream))

/-- The stream after a body, which fills whole blocks. -/
def afterBody (size : Nat) (stream : Stream) : Except Fault Stream :=
  stream.skip ((size + (blockSize - 1)) / blockSize * blockSize)

/-- The description of the next member with what a member says about it, and the stream after that. -/
def describe (description : Description) (header : Header) (size : Nat) (stream : Stream) :
    Except Fault (Description × Stream) := do
  if let some fault := description.twice? (Header.kind header) then throw fault
  let body ← (stream.upTo size).mapError .stream
  pure (description.extend (Header.kind header) body, ← afterBody size stream)

/-- The members from a place on; each takes a block at least, so the stream bounds their number. -/
def listFrom : Nat → Description → Stream → Listing
  | 0, _, _ => ⟨[], some .nothingDescribed⟩
  | fuel + 1, description, stream =>
    match nextHeader description stream with
    | .error fault => ⟨[], some fault⟩
    | .ok none => ⟨[], if description.isNone then none else some .nothingDescribed⟩
    | .ok (some (header, size, stream)) =>
      if describesNext header then
        match describe description header size stream with
        | .error fault => ⟨[], some fault⟩
        | .ok (description, stream) => listFrom fuel description stream
      else
        match afterParts header size stream with
        | .error fault => ⟨[], some fault⟩
        | .ok stream =>
          let member : Member :=
            { isFile := Header.kind header = '0' || Header.kind header = '\x00'
              path := description.path header
              size
              body := stream.upTo size }
          match afterBody size stream with
          | .error fault => ⟨[member], some fault⟩
          | .ok stream =>
            let listing := listFrom fuel .none stream
            ⟨member :: listing.members, listing.fault⟩

/-- The members of an archive. -/
def list (stream : Stream) : Listing := listFrom (stream.bytes.length + 1) .none stream

end Tar
end SourceIndex.Archive
