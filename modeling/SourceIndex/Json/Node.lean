import SourceIndex.Json
import SourceIndex.Text.Decimal
import SourceIndex.Text.Utf8

/-!
JSON text as it was written. Reading never fails: where the text goes wrong the tree ends in a broken
node, and what can only be refused once a value is wanted (a number out of range, half of a surrogate
pair, bytes that are no characters between quotes) is a node of its own. So a decoder that walks the tree
in order meets the first fault of the text or of the shape, whichever comes first, and a value that nobody
wants is only checked for its grammar.
-/

namespace SourceIndex.Json
open Text

inductive Node where
  | null
  | bool (b : Bool)
  | number (n : Number)
  | string (s : String)
  /-- A number whose value is out of range. -/
  | hugeNumber
  /-- A text with half of a surrogate pair, or with a broken part. -/
  | halfText
  /-- Items, and whether the closing bracket was found. -/
  | array (items : List Node) (closed : Bool)
  /-- Fields, whose key is absent if it is such a text, and whether the closing brace was found. -/
  | object (fields : List (Option String × Node)) (closed : Bool)
  /-- The text ends or goes wrong here. -/
  | broken
  deriving Inhabited

namespace Node

def isSpace (g : Glyph) : Bool := g = some ' ' || g = some '\n' || g = some '\t' || g = some '\r'

def skipSpace (s : List Glyph) : List Glyph := s.dropWhile isSpace

/-- The value of four hexadecimal digits. -/
def unit? (a b c d : Glyph) : Option Nat := do
  return (((← hexValue? (← a)) * 16 + (← hexValue? (← b))) * 16 + (← hexValue? (← c))) * 16 + (← hexValue? (← d))

/-- The character that an escape of one letter stands for. -/
def simpleEscape? (c : Char) : Option Char :=
  if c = '"' || c = '\\' || c = '/' then some c
  else if c = 'n' then some '\n'
  else if c = 'r' then some '\r'
  else if c = 't' then some '\t'
  else if c = 'b' then some '\x08'
  else if c = 'f' then some '\x0c'
  else none

def isHighUnit (n : Nat) : Bool := 0xD800 ≤ n && n < 0xDC00

def isLowUnit (n : Nat) : Bool := 0xDC00 ≤ n && n < 0xE000

/-- A text up to its closing quote, after the reversed beginning `done`. An escaped unit of the first
half of a surrogate pair is `waiting` for the second one; `whole` says that none waited in vain and that no
part was broken. The result is absent if the text goes wrong. -/
def readText : List Glyph → Option Nat → Chars → Bool → Option (Option String × List Glyph)
  | [], _, _, _ => none
  | some '"' :: rest, waiting, done, whole =>
    some (if whole && waiting.isNone then some (String.ofList done.reverse) else none, rest)
  | some '\\' :: some 'u' :: a :: b :: c :: d :: rest, waiting, done, whole =>
    match unit? a b c d, waiting with
    | none, _ => none
    | some n, none =>
      if isHighUnit n then readText rest (some n) done whole
      else if isLowUnit n then readText rest none done false
      else readText rest none (Char.ofNat n :: done) whole
    | some n, some high =>
      if isLowUnit n then
        readText rest none
          (Char.ofNat (0x10000 + (high - 0xD800) * 0x400 + (n - 0xDC00)) :: done) whole
      else if isHighUnit n then readText rest (some n) done false
      else readText rest none (Char.ofNat n :: done) false
  | some '\\' :: g :: rest, waiting, done, whole =>
    match g.bind simpleEscape? with
    | none => none
    | some c => readText rest none (c :: done) (whole && waiting.isNone)
  | some c :: rest, waiting, done, whole =>
    if c = '\\' || c.toNat < 32 then none
    else readText rest none (c :: done) (whole && waiting.isNone)
  | none :: rest, _, done, _ => readText rest none done false

/-- The decimal is at least half a step above the largest double: a decimal of `2 ^ 1024` or so. -/
def isHuge (digits : Nat) (exponent : Int) : Bool :=
  let size : Int := (Nat.toDigits 10 digits).length + exponent
  if digits = 0 || size < 300 then false
  else if 400 < size then true
  else
    let scale := Nat.pow 10 exponent.natAbs
    if 0 ≤ exponent then decide ((Nat.pow 2 54 - 1) * Nat.pow 2 970 ≤ digits * scale)
    else decide ((Nat.pow 2 54 - 1) * Nat.pow 2 970 * scale ≤ digits)

/-- The node of an integer: within 64 bits it stays one, and negative zero is a decimal. -/
def ofInteger (negative : Bool) (n : Nat) : Node :=
  if negative then
    if 0 < n && n ≤ Nat.pow 2 63 then .number (.integer (-n))
    else if isHuge n 0 then .hugeNumber
    else .number (.decimal true n 0)
  else if n < Nat.pow 2 64 then .number (.integer n)
  else if isHuge n 0 then .hugeNumber
  else .number (.decimal false n 0)

def isDigit (g : Glyph) : Bool := g.any Char.isDigit

/-- The digits at the start of a text. -/
def digits (s : List Glyph) : Chars := (s.takeWhile isDigit).filterMap id

/-- The text after the digits at its start. -/
def afterDigits (s : List Glyph) : List Glyph := s.dropWhile isDigit

/-- The digits after a decimal point, if one is there; absent if no digit follows it. -/
def readFraction : List Glyph → Option (Option Chars × List Glyph)
  | some '.' :: rest => if (digits rest).isEmpty then none else some (some (digits rest), afterDigits rest)
  | s => some (none, s)

/-- The exponent, if one is there; absent if no digit follows its mark. -/
def readExponent : List Glyph → Option (Option Int × List Glyph)
  | [] => some (none, [])
  | g :: rest =>
    if g = some 'e' || g = some 'E' then
      let (negative, rest) :=
        match rest with
        | some '-' :: rest => (true, rest)
        | some '+' :: rest => (false, rest)
        | rest => (false, rest)
      let n : Int := digitsValue (digits rest)
      if (digits rest).isEmpty then none
      else some (some (if negative then -n else n), afterDigits rest)
    else some (none, g :: rest)

/-- A number after its sign: no zero stands before another digit. -/
def readNumber (negative : Bool) (s : List Glyph) : Option (Node × List Glyph) :=
  let whole := digits s
  if whole.isEmpty || (1 < whole.length && whole.head? = some '0') then none
  else
    match readFraction (afterDigits s) with
    | none => none
    | some (fraction, rest) =>
      match readExponent rest with
      | none => none
      | some (exponent, rest) =>
        if fraction.isNone && exponent.isNone then
          some (ofInteger negative (digitsValue whole), rest)
        else
          let fraction := fraction.getD []
          let digits := digitsValue (whole ++ fraction)
          let exponent := exponent.getD 0 - fraction.length
          some (if isHuge digits exponent then .hugeNumber
            else .number (.decimal negative digits exponent), rest)

/-- A word such as `null`, which stands for the node. -/
def readWord (word : String) (node : Node) (s : List Glyph) : Node × Option (List Glyph) :=
  if (word.toList.map some).isPrefixOf s then (node, some (s.drop word.length)) else (.broken, none)

mutual

/-- A value and the text after it, which is absent once the text went wrong. -/
def readValue : Nat → List Glyph → Node × Option (List Glyph)
  | 0, _ => (.broken, none)
  | fuel + 1, s =>
    match skipSpace s with
    | [] => (.broken, none)
    | some '[' :: rest =>
      match skipSpace rest with
      | some ']' :: rest => (.array [] true, some rest)
      | rest =>
        let (items, after) := readItems fuel rest
        (.array items after.isSome, after)
    | some '\x7b' :: rest =>
      match skipSpace rest with
      | some '\x7d' :: rest => (.object [] true, some rest)
      | rest =>
        let (fields, after) := readFields fuel rest
        (.object fields after.isSome, after)
    | some '"' :: rest =>
      match readText rest none [] true with
      | none => (.broken, none)
      | some (some text, rest) => (.string text, some rest)
      | some (none, rest) => (.halfText, some rest)
    | g :: rest =>
      if g = some 'n' then readWord "null" .null (g :: rest)
      else if g = some 't' then readWord "true" (.bool true) (g :: rest)
      else if g = some 'f' then readWord "false" (.bool false) (g :: rest)
      else
        match if g = some '-' then readNumber true rest else readNumber false (g :: rest) with
        | some (node, rest) => (node, some rest)
        | none => (.broken, none)

/-- The items up to the closing bracket. -/
def readItems : Nat → List Glyph → List Node × Option (List Glyph)
  | 0, _ => ([], none)
  | fuel + 1, s =>
    match readValue fuel s with
    | (item, none) => ([item], none)
    | (item, some rest) =>
      match skipSpace rest with
      | some ']' :: rest => ([item], some rest)
      | some ',' :: rest =>
        let (items, after) := readItems fuel rest
        (item :: items, after)
      | _ => ([item], none)

/-- The fields up to the closing brace. -/
def readFields : Nat → List Glyph → List (Option String × Node) × Option (List Glyph)
  | 0, _ => ([], none)
  | fuel + 1, s =>
    match skipSpace s with
    | some '"' :: rest =>
      match readText rest none [] true with
      | none => ([], none)
      | some (key, rest) =>
        match skipSpace rest with
        | some ':' :: rest =>
          match readValue fuel rest with
          | (value, none) => ([(key, value)], none)
          | (value, some rest) =>
            match skipSpace rest with
            | some '\x7d' :: rest => ([(key, value)], some rest)
            | some ',' :: rest =>
              let (fields, after) := readFields fuel rest
              ((key, value) :: fields, after)
            | _ => ([(key, value)], none)
        | _ => ([(key, .broken)], none)
    | _ => ([], none)

end

mutual

/-- The text of the value follows the grammar. -/
def isWhole : Node → Bool
  | .broken => false
  | .array items closed => areWhole items && closed
  | .object fields closed => areWholeFields fields && closed
  | _ => true

def areWhole : List Node → Bool
  | [] => true
  | item :: rest => item.isWhole && areWhole rest

def areWholeFields : List (Option String × Node) → Bool
  | [] => true
  | (_, value) :: rest => value.isWhole && areWholeFields rest

end

end Node

/-- A text that holds one value, and whether nothing but space follows it. -/
structure Document where
  root : Node
  ends : Bool

namespace Document

/-- Every step of reading consumes a glyph, so the length bounds their number. -/
def ofGlyphs (s : List Glyph) : Document :=
  let (root, after) := Node.readValue (2 * s.length + 2) s
  ⟨root, (after.map fun rest => (Node.skipSpace rest).isEmpty).getD true⟩

def read (s : Chars) : Document := ofGlyphs (s.map some)

def ofBytes (bytes : List UInt8) : Document := ofGlyphs (glyphs bytes)

end Document
end SourceIndex.Json
