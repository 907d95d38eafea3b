import SourceIndex.Step

/-!
Decompression of deflate streams: stored blocks, and blocks of literals and copies in prefix codes
that are given by the lengths of their words. What was decompressed before a stream ends too early or
goes wrong is kept.
-/

namespace SourceIndex.Archive.Inflate

inductive Fault where
  /-- The stream ends too early. -/
  | cut
  | corrupt
  deriving DecidableEq, Repr

structure State where
  /-- The number of bits that were read. -/
  position : Nat
  output : Array UInt8

abbrev Read (α : Type) := Step Fault State α

/-- The longest word of a code. -/
def maxLength : Nat := 15

/-- A prefix code: how many words of each length there are, from one bit on, and the symbols in the
order of their words. -/
structure Code where
  counts : List Nat
  symbols : Array Nat

namespace Code

/-- The code whose words have the given lengths, in the order of the symbols; no word has length
zero. -/
def ofLengths (lengths : List Nat) : Code :=
  let sizes := (List.range maxLength).map (· + 1)
  { counts := sizes.map fun size => lengths.count size
    symbols := (sizes.flatMap fun size => lengths.zipIdx.filterMap fun (length, symbol) =>
      if length = size then some symbol else none).toArray }

/-- Every sequence of bits starts with exactly one word. -/
def isComplete (code : Code) : Bool :=
  code.counts.foldl (fun used count => 2 * used + count) 0 = Nat.pow 2 maxLength

/-- A code of a block is complete or has one word at most. -/
def isUsable (code : Code) : Bool := code.symbols.size ≤ 1 || code.isComplete

end Code

variable (input : Array UInt8)

def bit : Read Nat := do
  let state ← get
  match input[state.position / 8]? with
  | none => throw .cut
  | some b =>
    set { state with position := state.position + 1 }
    pure (b.toNat / Nat.pow 2 (state.position % 8) % 2)

/-- A number of so many bits, the lowest first. -/
def bits : Nat → Read Nat
  | 0 => pure 0
  | n + 1 => do
    let low ← bit input
    let high ← bits n
    pure (low + 2 * high)

/-- Read on in a word that is `word` so far, among words that start at `first` and have their symbols
from `index` on. -/
def symbolFrom (symbols : Array Nat) : List Nat → Nat → Nat → Nat → Read Nat
  | [], _, _, _ => throw .corrupt
  | count :: counts, word, first, index => do
    let word := 2 * word + (← bit input)
    let first := 2 * first
    if word < first + count then pure (symbols.getD (index + (word - first)) 0)
    else symbolFrom symbols counts word (first + count) (index + count)

/-- The symbol of the next word. -/
def symbol (code : Code) : Read Nat := symbolFrom input code.symbols code.counts 0 0 0

def emit (b : UInt8) : Read Unit :=
  modify fun state => { state with output := state.output.push b }

/-- Repeat bytes from so far back, which may overlap with the bytes that are added; before the start
there are zeros. -/
def copy (distance : Nat) : Nat → Array UInt8 → Array UInt8
  | 0, output => output
  | n + 1, output =>
    copy distance n <| output.push <|
      if distance ≤ output.size then output.getD (output.size - distance) 0 else 0

/-- Least copy lengths and how many bits are added to them, by symbol from 257 on. -/
def lengths : List (Nat × Nat) :=
  [(3, 0), (4, 0), (5, 0), (6, 0), (7, 0), (8, 0), (9, 0), (10, 0), (11, 1), (13, 1), (15, 1),
    (17, 1), (19, 2), (23, 2), (27, 2), (31, 2), (35, 3), (43, 3), (51, 3), (59, 3), (67, 4),
    (83, 4), (99, 4), (115, 4), (131, 5), (163, 5), (195, 5), (227, 5), (258, 0)]

/-- Least distances and how many bits are added to them, by symbol. -/
def distances : List (Nat × Nat) :=
  [(1, 0), (2, 0), (3, 0), (4, 0), (5, 1), (7, 1), (9, 2), (13, 2), (17, 3), (25, 3), (33, 4),
    (49, 4), (65, 5), (97, 5), (129, 6), (193, 6), (257, 7), (385, 7), (513, 8), (769, 8),
    (1025, 9), (1537, 9), (2049, 10), (3073, 10), (4097, 11), (6145, 11), (8193, 12), (12289, 12),
    (16385, 13), (24577, 13)]

/-- The value of a symbol with the bits that follow it. -/
def extended (table : List (Nat × Nat)) (symbol : Nat) : Read Nat := do
  match table[symbol]? with
  | none => throw .corrupt
  | some (least, extra) => pure (least + (← bits input extra))

/-- The literals and copies of a block; each takes a bit at least, so the input bounds their number. -/
def compressed (literals places : Code) : Nat → Read Unit
  | 0 => throw .corrupt
  | fuel + 1 => do
    let s ← symbol input literals
    if s < 256 then
      emit s.toUInt8
      compressed literals places fuel
    else if s = 256 then pure ()
    else
      let length ← extended input lengths (s - 257)
      let distance ← extended input distances (← symbol input places)
      modify fun state => { state with output := copy distance length state.output }
      compressed literals places fuel

def fixedLiterals : Code :=
  .ofLengths (List.replicate 144 8 ++ List.replicate 112 9 ++ List.replicate 24 7 ++
    List.replicate 8 8)

def fixedPlaces : Code := .ofLengths (List.replicate 32 5)

/-- The order in which the lengths of the code for word lengths are given. -/
def lengthOrder : List Nat := [16, 17, 18, 0, 8, 7, 9, 6, 10, 5, 11, 4, 12, 3, 13, 2, 14, 1, 15]

/-- So many numbers of three bits. -/
def wordLengths : Nat → Read (List Nat)
  | 0 => pure []
  | n + 1 => do
    let first ← bits input 3
    let rest ← wordLengths n
    pure (first :: rest)

/-- Word lengths up to a count, after those in reverse order that are already there. -/
def runLengths (code : Code) (count : Nat) : Nat → List Nat → Read (List Nat)
  | 0, _ => throw .corrupt
  | fuel + 1, done => do
    if count ≤ done.length then
      if done.length = count then pure done.reverse else throw .corrupt
    else
      let s ← symbol input code
      if s < 16 then runLengths code count fuel (s :: done)
      else if s = 16 then
        match done with
        | [] => throw .corrupt
        | last :: _ =>
          let n ← bits input 2
          runLengths code count fuel (List.replicate (n + 3) last ++ done)
      else if s = 17 then
        let n ← bits input 3
        runLengths code count fuel (List.replicate (n + 3) 0 ++ done)
      else
        let n ← bits input 7
        runLengths code count fuel (List.replicate (n + 11) 0 ++ done)

/-- The codes for literals and for distances that a block gives itself. -/
def ownCodes : Read (Code × Code) := do
  let literalCount := (← bits input 5) + 257
  let placeCount := (← bits input 5) + 1
  let givenCount := (← bits input 4) + 4
  if 286 < literalCount || 30 < placeCount then throw .corrupt
  let given ← wordLengths input givenCount
  let ordered := lengthOrder.zip given
  let code := Code.ofLengths ((List.range 19).map fun i => (ordered.lookup i).getD 0)
  if !code.isComplete then throw .corrupt
  let count := literalCount + placeCount
  let all ← runLengths input code count (count + 1) []
  let literals := Code.ofLengths (all.take literalCount)
  let places := Code.ofLengths (all.drop literalCount)
  if literals.isUsable && places.isUsable then pure (literals, places) else throw .corrupt

/-- So many bytes as they stand. -/
def verbatim : Nat → Read Unit
  | 0 => pure ()
  | n + 1 => do
    emit (← bits input 8).toUInt8
    verbatim n

/-- A stored block: from the next whole byte on its length, the complement of it, and the bytes. -/
def stored : Read Unit := do
  modify fun state => { state with position := (state.position + 7) / 8 * 8 }
  let length ← bits input 16
  let complement ← bits input 16
  if length + complement ≠ 0xFFFF then throw .corrupt
  verbatim input length

/-- The blocks up to the one that is marked as the last. -/
def blocks : Nat → Read Unit
  | 0 => throw .corrupt
  | fuel + 1 => do
    let last ← bit input
    let kind ← bits input 2
    let room := 8 * input.size + 1
    if kind = 0 then stored input
    else if kind = 1 then compressed input fixedLiterals fixedPlaces room
    else if kind = 2 then
      let (literals, places) ← ownCodes input
      compressed input literals places room
    else throw .corrupt
    if last = 1 then pure () else blocks fuel

/-- Decompress from a byte on: the bytes after the stream start, or why there is no end, and what was
decompressed. -/
def inflate (start : Nat) : Except Fault Nat × Array UInt8 :=
  let (result, state) := (blocks input (8 * input.size + 1)).run.run ⟨8 * start, #[]⟩
  (result.map fun _ => (state.position + 7) / 8, state.output)

end SourceIndex.Archive.Inflate
