import SourceIndex.Text.Lines

/-!
JSON values. A number is an integer of 64 bits, signed or unsigned, or else a decimal that is kept as
it was written; so no value loses anything between reading and writing.
-/

namespace SourceIndex

namespace Json

inductive Number where
  | integer (n : Int)
  /-- The value `digits * 10 ^ exponent`, with a sign that zero has too. -/
  | decimal (negative : Bool) (digits : Nat) (exponent : Int)
  deriving DecidableEq, Repr

end Json

inductive Json where
  | null
  | bool (b : Bool)
  | number (n : Json.Number)
  | string (s : String)
  | array (items : List Json)
  | object (fields : List (String × Json))
  deriving Repr, Inhabited

namespace Json

def nat (n : Nat) : Json := .number (.integer n)

def strings (values : List String) : Json := .array (values.map .string)

def ofOption {α : Type} (f : α → Json) : Option α → Json
  | none => .null
  | some a => f a

/-- The value of a field; the first one, should a key stand there twice. -/
def field? : Json → String → Option Json
  | .object fields, key => fields.lookup key
  | _, _ => none

def string? : Json → Option String
  | .string s => some s
  | _ => none

/-- The text of a field that holds a text. -/
def stringField? (json : Json) (key : String) : Option String := (json.field? key).bind string?

/-- Set a field of a sorted list of fields, which stays sorted. -/
def setField (key : String) (value : Json) : List (String × Json) → List (String × Json)
  | [] => [(key, value)]
  | (k, v) :: rest =>
    if key < k then (key, value) :: (k, v) :: rest
    else if key = k then (key, value) :: rest
    else (k, v) :: setField key value rest

/-- The object with the given fields in the order of their keys; of equal keys the last counts. -/
def sortedObject (fields : List (String × Json)) : Json :=
  .object (fields.foldl (fun sorted (key, value) => setField key value sorted) [])

end Json
end SourceIndex
