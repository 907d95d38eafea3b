import SourceIndex.Text.Reader
import SourceIndex.Toml.Date
import SourceIndex.Toml.Value

/-!
The words of configuration texts: blanks, line ends and comments, quoted texts, and values of one
word.
-/

namespace SourceIndex.Toml
open Text

def isSpace (c : Char) : Bool := c = ' ' || c = '\t'

def skipSpaces (s : Chars) : Chars := s.dropWhile isSpace

/-- A character that may stand in comments and in quotes. -/
def isPlain (c : Char) : Bool := c = '\t' || (32 ≤ c.toNat && c.toNat ≠ 127)

/-- The text after a line end. -/
def afterNewline? : Chars → Option Chars
  | '\n' :: rest => some rest
  | '\r' :: '\n' :: rest => some rest
  | _ => none

/-- The text without a comment at its front. -/
def skipComment : Chars → Chars
  | '#' :: rest => rest.dropWhile isPlain
  | s => s

/-- The text after the rest of a line that has nothing more to say. -/
def endLine? (s : Chars) : Option Chars :=
  match skipComment (skipSpaces s) with
  | [] => some []
  | s => afterNewline? s

/-- Skip blanks, comments and line ends; each step takes a character. -/
def skipLines : Nat → Chars → Chars
  | 0, s => s
  | fuel + 1, s =>
    let s := skipComment (skipSpaces s)
    match afterNewline? s with
    | some rest => skipLines fuel rest
    | none => s

/-! ### Quoted texts -/

/-- The character with a number that is written in so many hexadecimal digits. -/
def escapedNumber (count : Nat) : Reader Char := fun s =>
  let digits := s.take count
  let n := runValue 16 digits
  if digits.length = count && digits.all isHexDigit && n.isValidChar then
    some (Char.ofNat n, s.drop count)
  else none

/-- The character that an escape after a backslash stands for. -/
def escape : Reader Char
  | 'b' :: rest => some ('\x08', rest)
  | 't' :: rest => some ('\t', rest)
  | 'n' :: rest => some ('\n', rest)
  | 'f' :: rest => some ('\x0c', rest)
  | 'r' :: rest => some ('\r', rest)
  | '"' :: rest => some ('"', rest)
  | '\\' :: rest => some ('\\', rest)
  | 'u' :: rest => escapedNumber 4 rest
  | 'U' :: rest => escapedNumber 8 rest
  | _ => none

/-- The rest of a text in double quotes after its beginning in reverse; each step takes a character. -/
def basicText : Nat → Chars → Reader String
  | 0, _, _ => none
  | _ + 1, _, [] => none
  | _ + 1, done, '"' :: rest => some (String.ofList done.reverse, rest)
  | fuel + 1, done, '\\' :: rest => do
    let (c, rest) ← escape rest
    basicText fuel (c :: done) rest
  | fuel + 1, done, c :: rest => if isPlain c then basicText fuel (c :: done) rest else none

/-- The rest of a text in single quotes. -/
def literalText (s : Chars) : Option (String × Chars) :=
  let text := s.takeWhile fun c => c ≠ '\'' && isPlain c
  match s.drop text.length with
  | '\'' :: rest => some (String.ofList text, rest)
  | _ => none

/-- The end of a text between three quotes, if it is here: there may be two more quotes before it. -/
def closing? (quote : Char) (s : Chars) : Option (Nat × Chars) :=
  let count := (s.takeWhile (· = quote)).length
  if 3 ≤ count then some (min (count - 3) 2, s.drop (min count 5)) else none

/-- The text without the blanks and line ends at its front, if there is a line end among the first
blanks. -/
def joinedLine? (s : Chars) : Option Chars :=
  (afterNewline? (skipSpaces s)).map (·.dropWhile fun c => isSpace c || c = '\n' || c = '\r')

/-- The rest of a text between three double or three single quotes; each step takes a character. -/
def longText (quote : Char) : Nat → Chars → Reader String
  | 0, _, _ => none
  | fuel + 1, done, s =>
    match closing? quote s with
    | some (count, rest) => some (String.ofList (done.reverse ++ List.replicate count quote), rest)
    | none =>
      match afterNewline? s with
      | some rest => longText quote fuel ('\n' :: done) rest
      | none =>
        match s with
        | [] => none
        | c :: rest =>
          if c = '\\' && quote = '"' then
            match joinedLine? rest with
            | some rest => longText quote fuel done rest
            | none =>
              match escape rest with
              | some (c, rest) => longText quote fuel (c :: done) rest
              | none => none
          else if isPlain c then longText quote fuel (c :: done) rest
          else none

/-- A text between three quotes loses a line end at its start. -/
def longTextFrom (quote : Char) (s : Chars) : Option (String × Chars) :=
  longText quote (s.length + 1) [] ((afterNewline? s).getD s)

/-- A text in quotes of one line. -/
def quotedText : Reader String
  | '"' :: rest => basicText (rest.length + 1) [] rest
  | '\'' :: rest => literalText rest
  | _ => none

/-! ### Keys -/

def isKeyChar (c : Char) : Bool := isAsciiAlphanumeric c || c = '_' || c = '-'

/-- One part of a key. -/
def keyPart (s : Chars) : Option (String × Chars) :=
  let bare := s.takeWhile isKeyChar
  if bare.isEmpty then quotedText s else some (String.ofList bare, s.drop bare.length)

/-- The parts of a key with dots between them; each takes a character. -/
def keyParts : Nat → Reader (List String)
  | 0, _ => none
  | fuel + 1, s => do
    let (part, s) ← keyPart (skipSpaces s)
    match skipSpaces s with
    | '.' :: rest =>
      let (parts, rest) ← keyParts fuel rest
      some (part :: parts, rest)
    | s => some ([part], s)

/-- How deep values and keys nest at most. -/
def maxDepth : Nat := 80

def key (s : Chars) : Option (List String × Chars) :=
  (keyParts (s.length + 1) s).filter (·.1.length ≤ maxDepth)

/-! ### Values of one word -/

def isWordChar (c : Char) : Bool :=
  isAsciiAlphanumeric c || c = '_' || c = '+' || c = '-' || c = '.' || c = ':'

def word? (s : Chars) : Option Value :=
  if s = "true".toList then some (.bool true)
  else if s = "false".toList then some (.bool false)
  else
    match integer? s with
    | some n => some (.integer n)
    | none =>
      if isFloat s then some (.float (String.ofList s))
      else if isDate s then some (.date (String.ofList s))
      else none

/-- A value of one word; a date and a time may have a blank between them. -/
def word (s : Chars) : Option (Value × Chars) :=
  let first := s.takeWhile isWordChar
  let rest := s.drop first.length
  match rest with
  | ' ' :: after =>
    let both := first ++ ' ' :: after.takeWhile isWordChar
    if afterDate? first = some [] && isDate both then
      some (.date (String.ofList both), s.drop both.length)
    else (word? first).map (·, rest)
  | _ => (word? first).map (·, rest)

end SourceIndex.Toml
