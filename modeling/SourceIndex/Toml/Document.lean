import SourceIndex.Toml.Lexical

/-!
Configuration texts as a whole. A text is a list of lines that set a key, open a table or add a table
to an array of tables. A table is opened once, and only once everything that is to be set by dotted
keys has been set; nothing is set twice.
-/

namespace SourceIndex.Toml
open Text

/-- What stands under a key while a document is built. -/
inductive Item where
  | value (v : Value)
  /-- A table; `implicit` if only its parts were named so far, `dotted` if by dotted keys. -/
  | table (implicit dotted : Bool) (fields : List (String × Item))
  | tables (items : List (List (String × Item)))
  deriving Inhabited

abbrev Fields := List (String × Item)

namespace Item

mutual

def toValue : Item → Value
  | .value v => v
  | .table _ _ fields => .table (fieldValues fields)
  | .tables items => .array (tableValues items)

def fieldValues : List (String × Item) → List (String × Value)
  | [] => []
  | (key, item) :: rest => (key, item.toValue) :: fieldValues rest

def tableValues : List (List (String × Item)) → List Value
  | [] => []
  | fields :: rest => .table (fieldValues fields) :: tableValues rest

end

end Item

namespace Fields

/-- Set a field, in place of one of the same key. -/
def put (key : String) (item : Item) : Fields → Fields
  | [] => [(key, item)]
  | (k, i) :: rest => if k = key then (key, item) :: rest else (k, i) :: put key item rest

/-- Change the table at a path below a table that `isDotted` or not; tables on the way are made, and
dotted keys only lead through tables that were not opened. -/
def change (dotted : Bool) (f : (isDotted : Bool) → Fields → Option Fields) :
    (path : List String) → (isDotted : Bool) → Fields → Option Fields
  | [], isDotted, fields => f isDotted fields
  | key :: path, _, fields =>
    match fields.lookup key with
    | none => do
      let inner ← change dotted f path dotted []
      some (fields.put key (.table true dotted inner))
    | some (.value _) => none
    | some (.table implicit isDotted inner) =>
      if dotted && !implicit then none
      else do
        let inner ← change dotted f path isDotted inner
        some (fields.put key (.table implicit isDotted inner))
    | some (.tables items) => do
      let last ← change dotted f path false (← items.getLast?)
      some (fields.put key (.tables (items.dropLast ++ [last])))

/-- Set a dotted key that is not set yet. -/
def setKey (path : List String) (item : Item) (fields : Fields) : Option Fields := do
  let key ← path.getLast?
  change true
    (fun isDotted fields =>
      if isDotted == (path.length == 1) || (fields.lookup key).isSome then none
      else some (fields ++ [(key, item)]))
    path.dropLast false fields

/-- Set some keys one after the other. -/
def setKeys (pairs : List (List String × Item)) (fields : Fields) : Option Fields :=
  pairs.foldlM (fun fields (path, item) => fields.setKey path item) fields

/-- Open a table that was not opened yet and set its keys. -/
def openTable (path : List String) (pairs : List (List String × Item)) (fields : Fields) :
    Option Fields := do
  let key ← path.getLast?
  change false
    (fun _ fields => do
      let inner ←
        match fields.lookup key with
        | none => some []
        | some (.table true false inner) => some inner
        | some _ => none
      some (fields.put key (.table false false (← setKeys pairs inner))))
    path.dropLast false fields

/-- Add a table to an array of tables. -/
def addTable (path : List String) (pairs : List (List String × Item)) (fields : Fields) :
    Option Fields := do
  let key ← path.getLast?
  change false
    (fun _ fields => do
      let items ←
        match fields.lookup key with
        | none => some []
        | some (.tables items) => some items
        | some _ => none
      some (fields.put key (.tables (items ++ [← setKeys pairs []]))))
    path.dropLast false fields

end Fields

/-! ### Values -/

mutual

/-- A value. Values nest to a depth at most; each step takes a character. -/
def value : Nat → (depth : Nat) → Reader Value
  | 0, _, _ => none
  | fuel + 1, depth, s =>
    match s, depth with
    | '"' :: '"' :: '"' :: rest, _ => (longTextFrom '"' rest).map fun (t, rest) => (.string t, rest)
    | '\'' :: '\'' :: '\'' :: rest, _ =>
      (longTextFrom '\'' rest).map fun (t, rest) => (.string t, rest)
    | '"' :: _, _ | '\'' :: _, _ => (quotedText s).map fun (t, rest) => (.string t, rest)
    | '[' :: _, 0 | '\x7b' :: _, 0 => none
    | '[' :: rest, depth + 1 => do
      let (items, rest) ← arrayItems fuel depth rest
      some (.array items, rest)
    | '\x7b' :: rest, depth + 1 =>
      match skipSpaces rest with
      | '\x7d' :: rest => some (.table [], rest)
      | rest => do
        let (pairs, rest) ← inlinePairs fuel depth rest
        let fields ← Fields.setKeys pairs []
        some (.table (Item.fieldValues fields), rest)
    | s, _ => word s

/-- The items of an array up to its closing bracket. -/
def arrayItems : Nat → (depth : Nat) → Reader (List Value)
  | 0, _, _ => none
  | fuel + 1, depth, s =>
    match skipLines s.length s with
    | ']' :: rest => some ([], rest)
    | s => do
      let (item, s) ← value fuel depth s
      match skipLines s.length s with
      | ']' :: rest => some ([item], rest)
      | ',' :: rest =>
        let (items, rest) ← arrayItems fuel depth rest
        some (item :: items, rest)
      | _ => none

/-- The keys and values of a table on one line up to its closing brace. -/
def inlinePairs : Nat → (depth : Nat) → Reader (List (List String × Item))
  | 0, _, _ => none
  | fuel + 1, depth, s => do
    let (path, s) ← key s
    let s ← stripStart? ['='] s
    let (v, s) ← value fuel depth (skipSpaces s)
    match skipSpaces s with
    | '\x7d' :: rest => some ([(path, .value v)], rest)
    | ',' :: rest =>
      let (pairs, rest) ← inlinePairs fuel depth rest
      some ((path, .value v) :: pairs, rest)
    | _ => none

end

/-! ### Lines -/

/-- A line that says something. -/
inductive Line where
  | set (path : List String) (v : Value)
  | table (path : List String)
  | tables (path : List String)

/-- A line that says something, up to its end. -/
def line (s : Chars) : Option (Line × Chars) :=
  match s with
  | '[' :: '[' :: rest => do
    let (path, s) ← key rest
    some (.tables path, ← endLine? (← stripStart? [']', ']'] s))
  | '[' :: rest => do
    let (path, s) ← key rest
    some (.table path, ← endLine? (← stripStart? [']'] s))
  | s => do
    let (path, s) ← key s
    let s ← stripStart? ['='] s
    let (v, s) ← value (s.length + 1) maxDepth (skipSpaces s)
    some (.set path v, ← endLine? s)

/-- The lines of a text that say something; each takes a character. -/
def lines : Nat → Chars → Option (List Line)
  | 0, _ => none
  | fuel + 1, s =>
    match skipLines s.length s with
    | [] => some []
    | s => do
      let (first, s) ← line s
      let rest ← lines fuel s
      some (first :: rest)

/-- The lines at the front that set keys. -/
def leadingPairs : List Line → List (List String × Item)
  | .set path v :: rest => (path, .value v) :: leadingPairs rest
  | _ => []

/-- Take the lines that open tables one after the other, each with the keys that are set after it. -/
def addTables : List Line → Fields → Option Fields
  | [], fields => some fields
  | .set _ _ :: rest, fields => addTables rest fields
  | .table path :: rest, fields => do
    addTables rest (← fields.openTable path (leadingPairs rest))
  | .tables path :: rest, fields => do
    addTables rest (← fields.addTable path (leadingPairs rest))

/-- The fields of a text, which may start with a byte order mark. -/
def parse? (text : String) : Option (List (String × Value)) := do
  let s := (stripStart? ['\uFEFF'] text.toList).getD text.toList
  let ls ← lines (s.length + 1) s
  let root ← Fields.setKeys (leadingPairs ls) []
  let root ← addTables ls root
  some (Item.fieldValues root)

end SourceIndex.Toml
