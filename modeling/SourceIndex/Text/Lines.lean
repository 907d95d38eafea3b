import SourceIndex.Text.CharClass

/-!
Cutting text, as lists of characters, into its lines, words and fields, and joining it again. A line
ends at a line feed, and one carriage return before the feed belongs to the line end; a carriage
return that ends the whole text stays in its line.
-/

namespace SourceIndex.Text

/-- A text, or one line of it. -/
abbrev Chars := List Char

def trimStart (s : Chars) : Chars := s.dropWhile isBlank

def trimEnd (s : Chars) : Chars := (s.reverse.dropWhile isBlank).reverse

def trim (s : Chars) : Chars := trimEnd (trimStart s)

/-- The text holds nothing but blanks. -/
def isBlankText (s : Chars) : Bool := s.all isBlank

/-- The lines of the text that follow the reversed beginning `line` of a line. -/
def linesAfter : Chars → Chars → List Chars
  | [], [] => []
  | [], line => [line.reverse]
  | '\n' :: rest, '\r' :: line => line.reverse :: linesAfter rest []
  | '\n' :: rest, line => line.reverse :: linesAfter rest []
  | c :: rest, line => linesAfter rest (c :: line)

/-- The lines of a text; a line feed at the very end opens no further line. -/
def lines (s : Chars) : List Chars := linesAfter s []

/-- Lines joined by single line feeds. -/
def unlines (ls : List Chars) : Chars := ['\n'].intercalate ls

/-- The fields of a text that follow the reversed beginning `field` of a field. -/
def splitAfter (p : Char → Bool) : Chars → Chars → List Chars
  | [], field => [field.reverse]
  | c :: rest, field =>
    if p c then field.reverse :: splitAfter p rest [] else splitAfter p rest (c :: field)

/-- The fields between the characters of a class; there is one more field than such characters. -/
def splitBy (p : Char → Bool) (s : Chars) : List Chars := splitAfter p s []

def splitOn (sep : Char) (s : Chars) : List Chars := splitBy (· == sep) s

/-- The maximal runs of characters that are not blank. -/
def words (s : Chars) : List Chars := (splitBy isBlank s).filter (!·.isEmpty)

def stripStart? (start s : Chars) : Option Chars :=
  if start.isPrefixOf s then some (s.drop start.length) else none

def stripEnd? (ending s : Chars) : Option Chars :=
  if ending.isSuffixOf s then some (s.take (s.length - ending.length)) else none

/-- Some place of `s` starts with `part`. -/
def containsText (part : Chars) : Chars → Bool
  | [] => part.isEmpty
  | c :: rest => part.isPrefixOf (c :: rest) || containsText part rest

/-- What stands before and after the first place that starts with `sep`. -/
def splitFirst? (sep : Chars) : Chars → Option (Chars × Chars)
  | [] => if sep.isEmpty then some ([], []) else none
  | c :: rest =>
    if sep.isPrefixOf (c :: rest) then some ([], (c :: rest).drop sep.length)
    else (splitFirst? sep rest).map fun (before, after) => (c :: before, after)

/-- Drop `start` from the front as often as it stands there, at most once per character. -/
def stripRepeated (start : Chars) (s : Chars) : Chars := go s.length s
where
  go : Nat → Chars → Chars
    | 0, s => s
    | fuel + 1, s =>
      match stripStart? start s with
      | some rest => go fuel rest
      | none => s

/-- The values in order of first occurrence, each trimmed, without empty ones. -/
def distinctTrimmed (values : List Chars) : List Chars :=
  values.foldl (fun seen value =>
    let value := trim value
    if value.isEmpty || seen.contains value then seen else seen ++ [value]) []

/-- ASCII letters in lower case, all else as it is. -/
def asciiLower (s : Chars) : Chars := s.map Char.toLower

end SourceIndex.Text
