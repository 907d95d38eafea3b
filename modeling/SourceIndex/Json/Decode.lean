import SourceIndex.Json.Node

/-!
Decoding the tree of a JSON text into wanted values. A fault is one of the grammar or one of the
shape. A record is an object, in which unknown fields are skipped and known ones must not repeat, or
an array of its fields in order. Containers whose values are kept nest to a depth of 127 at most.
-/

namespace SourceIndex.Json
open Text

inductive Fault where
  /-- The text is no JSON, or holds a value that cannot be represented. -/
  | grammar
  /-- The value is not of the wanted shape. -/
  | shape
  deriving DecidableEq, Repr

/-- A decoder, given how many containers may still be entered. -/
abbrev Decoder (α : Type) := Nat → Node → Except Fault α

namespace Decoder

/-- How deep kept containers may nest. -/
def maxDepth : Nat := 127

/-- The fault of a node where no container is wanted. -/
def mismatch : Node → Fault
  | .broken | .hugeNumber | .halfText => .grammar
  | _ => .shape

def string : Decoder String := fun _ node =>
  match node with
  | .string s => .ok s
  | node => .error (mismatch node)

/-- A whole number up to a bound. -/
def natUpTo (bound : Nat) : Decoder Nat := fun _ node =>
  match node with
  | .number (.integer n) => if 0 ≤ n && n ≤ (bound : Int) then .ok n.toNat else .error .shape
  | node => .error (mismatch node)

/-- An unsigned number of 64 bits. -/
def word64 : Decoder Nat := natUpTo (Nat.pow 2 64 - 1)

def number : Decoder Number := fun _ node =>
  match node with
  | .number n => .ok n
  | node => .error (mismatch node)

/-- The value `null` or a value of the wanted shape. -/
def nullable {α : Type} (item : Decoder α) : Decoder (Option α) := fun depth node =>
  match node with
  | .null => .ok none
  | node => (item depth node).map some

/-- The value `null` and nothing else. -/
def unit : Decoder Unit := fun _ node =>
  match node with
  | .null => .ok ()
  | node => .error (mismatch node)

/-- Items of one shape. -/
def list {α : Type} (item : Decoder α) : Decoder (List α) := fun depth node =>
  match node, depth with
  | .array _ _, 0 => .error .grammar
  | .array items closed, depth + 1 => do
    let values ← items.mapM (item depth)
    if closed then .ok values else .error .grammar
  | node, _ => .error (mismatch node)

mutual

/-- Any value, with the fields of its objects sorted. -/
def any : Decoder Json
  | _, .null => .ok .null
  | _, .bool b => .ok (.bool b)
  | _, .number n => .ok (.number n)
  | _, .string s => .ok (.string s)
  | depth + 1, .array items closed => do
    let values ← anyItems depth items
    if closed then .ok (.array values) else .error .grammar
  | depth + 1, .object fields closed => do
    let values ← anyFields depth fields
    if closed then .ok (Json.sortedObject values) else .error .grammar
  | _, _ => .error .grammar

def anyItems : Nat → List Node → Except Fault (List Json)
  | _, [] => .ok []
  | depth, item :: rest => do
    let value ← any depth item
    let values ← anyItems depth rest
    .ok (value :: values)

def anyFields : Nat → List (Option String × Node) → Except Fault (List (String × Json))
  | _, [] => .ok []
  | _, (none, _) :: _ => .error .grammar
  | depth, (some key, node) :: rest => do
    let value ← any depth node
    let values ← anyFields depth rest
    .ok ((key, value) :: values)

end

/-- One of the named values: its name, or an object from its name to `null`. -/
def named {α : Type} (ofName? : String → Option α) : Decoder α := fun depth node =>
  let find (name : String) : Except Fault α :=
    match ofName? name with
    | some a => .ok a
    | none => .error .shape
  match node, depth with
  | .string s, _ => find s
  | .object ((some key, value) :: rest) closed, depth + 1 => do
    let a ← find key
    unit depth value
    if rest.isEmpty && closed then .ok a else .error .grammar
  | _, _ => .error .grammar

/-- What a record does without when a field is missing. -/
inductive Absence where
  /-- The field must be there. -/
  | never
  /-- It may be missing from an object, and only from an object. -/
  | fromObject
  /-- It may be missing anywhere. -/
  | anywhere
  deriving DecidableEq

/-- A known field of a record: its name, what is accepted for it and whether it may be missing. -/
structure Field where
  name : String
  check : Nat → Node → Except Fault Unit
  absence : Absence

/-- A field whose value a decoder accepts. -/
def field {α : Type} (name : String) (decoder : Decoder α) (absence : Absence) : Field :=
  ⟨name, fun depth node => (decoder depth node).map fun _ => (), absence⟩

/-- The nodes of the known fields that are there. -/
structure Record where
  depth : Nat
  nodes : List (String × Node)

/-- Go through the fields of an object in order, keeping the known ones. -/
def recordFields (known : List Field) (depth : Nat) :
    List (Option String × Node) → List (String × Node) → Except Fault (List (String × Node))
  | [], found => .ok found
  | (none, _) :: _, _ => .error .grammar
  | (some key, node) :: rest, found =>
    match known.find? (·.name == key) with
    | none =>
      if node.isWhole then recordFields known depth rest found else .error .grammar
    | some field => do
      if (found.lookup key).isSome then .error .shape
      field.check depth node
      recordFields known depth rest ((key, node) :: found)

/-- Pair the items of an array with the fields in order. -/
def recordItems (depth : Nat) (closed : Bool) :
    List Field → List Node → Except Fault (List (String × Node))
  | [], [] => if closed then .ok [] else .error .grammar
  | [], _ :: _ => .error .grammar
  | known, [] =>
    if !closed then .error .grammar
    else if known.all (·.absence == .anywhere) then .ok []
    else .error .shape
  | field :: known, node :: rest => do
    field.check depth node
    let found ← recordItems depth closed known rest
    .ok ((field.name, node) :: found)

/-- The known fields of a record, all of them checked. -/
def record (known : List Field) : Decoder Record := fun depth node =>
  match node, depth with
  | .object fields closed, depth + 1 => do
    let found ← recordFields known depth fields []
    if !closed then .error .grammar
    else if known.all fun field => field.absence != .never || (found.lookup field.name).isSome then
      .ok ⟨depth, found⟩
    else .error .shape
  | .array items closed, depth + 1 => do
    let found ← recordItems depth closed known items
    .ok ⟨depth, found⟩
  | .object _ _, 0 | .array _ _, 0 => .error .grammar
  | node, _ => .error (mismatch node)

/-- The value of a field that must be there. -/
def Record.get {α : Type} (found : Record) (name : String) (decoder : Decoder α) : Except Fault α :=
  match found.nodes.lookup name with
  | some node => decoder found.depth node
  | none => .error .shape

/-- The value of a field, or what stands for it when it is missing. -/
def Record.getD {α : Type} (found : Record) (name : String) (decoder : Decoder α) (absent : α) :
    Except Fault α :=
  match found.nodes.lookup name with
  | some node => decoder found.depth node
  | none => .ok absent

/-- Decode a whole document. -/
def document {α : Type} (decoder : Decoder α) (document : Document) : Except Fault α := do
  let value ← decoder maxDepth document.root
  if document.ends then .ok value else .error .grammar

def text {α : Type} (decoder : Decoder α) (s : Chars) : Except Fault α := decoder.document (.read s)

def bytes {α : Type} (decoder : Decoder α) (b : List UInt8) : Except Fault α := decoder.document (.ofBytes b)

end Decoder

mutual

/-- A value as if it had been read. -/
def toNode : Json → Node
  | .null => .null
  | .bool b => .bool b
  | .number n => .number n
  | .string s => .string s
  | .array items => .array (itemNodes items) true
  | .object fields => .object (fieldNodes fields) true

def itemNodes : List Json → List Node
  | [] => []
  | item :: rest => item.toNode :: itemNodes rest

def fieldNodes : List (String × Json) → List (Option String × Node)
  | [] => []
  | (key, value) :: rest => (some key, value.toNode) :: fieldNodes rest

end

/-- The value that a text holds. -/
def parse? (s : Chars) : Option Json := (Decoder.any.text s).toOption

end SourceIndex.Json
