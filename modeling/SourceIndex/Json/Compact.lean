import SourceIndex.Json

/-!
The compact text of a JSON value: no blanks, fields in the order they have, and only quotes,
backslashes and control characters escaped.
-/

namespace SourceIndex.Json
open Text

def escapeChar (c : Char) : Chars :=
  if c = '"' then ['\\', '"']
  else if c = '\\' then ['\\', '\\']
  else if c = '\n' then ['\\', 'n']
  else if c = '\r' then ['\\', 'r']
  else if c = '\t' then ['\\', 't']
  else if c = '\x08' then ['\\', 'b']
  else if c = '\x0c' then ['\\', 'f']
  else if c.toNat < 32 then
    ['\\', 'u', '0', '0', hexDigit (c.toNat / 16), hexDigit (c.toNat % 16)]
  else [c]

def quoted (s : String) : Chars := '"' :: s.toList.flatMap escapeChar ++ ['"']

def Number.compact : Number → Chars
  | .integer n => (toString n).toList
  | .decimal negative digits exponent =>
    (if negative then ['-'] else []) ++ (toString digits).toList ++ ['e'] ++ (toString exponent).toList

mutual

/-- The compact text of a value. -/
def compact : Json → Chars
  | .null => "null".toList
  | .bool true => "true".toList
  | .bool false => "false".toList
  | .number n => n.compact
  | .string s => quoted s
  | .array items => '[' :: compactItems items ++ [']']
  | .object fields => '\x7b' :: compactFields fields ++ ['\x7d']

def compactItems : List Json → Chars
  | [] => []
  | [item] => compact item
  | item :: rest => compact item ++ ',' :: compactItems rest

def compactFields : List (String × Json) → Chars
  | [] => []
  | [(key, value)] => quoted key ++ ':' :: compact value
  | (key, value) :: rest => quoted key ++ ':' :: compact value ++ ',' :: compactFields rest

end

def toText (json : Json) : String := String.ofList (compact json)

end SourceIndex.Json
