/-!
The cyclic redundancy check of 32 bits, with the reflected polynomial of Ethernet.
-/

namespace SourceIndex.Crc32

def polynomial : UInt32 := 0xEDB88320

/-- The remainder after so many more bits. -/
def shift : Nat → UInt32 → UInt32
  | 0, c => c
  | n + 1, c => shift n (if c &&& 1 = 1 then (c >>> 1) ^^^ polynomial else c >>> 1)

def addByte (c : UInt32) (b : UInt8) : UInt32 := shift 8 (c ^^^ b.toUInt32)

def checksum (bytes : List UInt8) : UInt32 :=
  bytes.foldl addByte 0xFFFFFFFF ^^^ 0xFFFFFFFF

end SourceIndex.Crc32
