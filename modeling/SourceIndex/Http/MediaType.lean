import SourceIndex.Text.Lines

/-!
Media types: a type, a slash, a subtype that may have a suffix after a plus sign, and parameters.
-/

namespace SourceIndex.Http
open Text

structure MediaType where
  type : Chars
  subtype : Chars
  suffix : Option Chars
  deriving DecidableEq, Repr

namespace MediaType

def isTokenChar (c : Char) : Bool :=
  isAsciiAlphanumeric c || "!#$%&'*+-.^_|~".toList.contains c || c = '\x60'

/-- The subtype and the suffix after its last plus sign that is not at its start. -/
def splitSuffix (s : Chars) : Chars × Option Chars :=
  let suffix := (s.reverse.takeWhile (· ≠ '+')).reverse
  if suffix.length + 1 < s.length then (s.take (s.length - suffix.length - 1), some suffix)
  else if s.getLast? = some '+' && 1 < s.length then (s.dropLast, some [])
  else (s, none)

/-- After a quoted value: blanks up to a semicolon or the end. -/
def afterQuoted (s : Chars) : Option Chars :=
  match s.dropWhile (· = ' ') with
  | [] => some []
  | ';' :: rest => some rest
  | _ => none

/-- The rest after a value: some token, or any text between quotes. -/
def afterValue : Chars → Option Chars
  | '"' :: rest =>
    match rest.dropWhile fun c => c ≠ '"' && (32 ≤ c.toNat && c.toNat ≠ 127) with
    | '"' :: after => if after.length + 1 = rest.length then none else afterQuoted after
    | _ => none
  | s =>
    match s.dropWhile isTokenChar with
    | [] => some []
    | ';' :: rest => if isTokenChar (s.headD ';') then some rest else none
    | _ => none

/-- Parameters are in order; each takes a character, so the length bounds their number. -/
def parametersAreSound : Nat → Chars → Bool
  | 0, s => s.isEmpty
  | fuel + 1, s =>
    match s with
    | [] => true
    | ' ' :: rest => parametersAreSound fuel rest
    | c :: _ =>
      match s.dropWhile isTokenChar with
      | '=' :: rest =>
        isTokenChar c &&
          match afterValue rest with
          | some rest => parametersAreSound fuel rest
          | none => false
      | _ => false

def parse? (s : Chars) : Option MediaType :=
  let s := asciiLower s
  match splitFirst? ['/'] s with
  | none => none
  | some (type, rest) =>
    let subtype := rest.takeWhile isTokenChar
    let after := rest.dropWhile isTokenChar
    let (name, suffix) := splitSuffix subtype
    let sound :=
      match after with
      | [] => true
      | ';' :: parameters => parametersAreSound parameters.length parameters
      | _ => false
    if !type.isEmpty && type.all isTokenChar && (!subtype.isEmpty || after.isEmpty) && sound then
      some ⟨type, name, suffix⟩
    else none

/-- JSON as such, or a format that is written in JSON. -/
def isJson (media : MediaType) : Bool :=
  media.type = "application".toList &&
    (media.subtype = "json".toList || media.suffix = some "json".toList)

end MediaType
end SourceIndex.Http
