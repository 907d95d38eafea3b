import SourceIndex.Text.Utf8

/-!
Forms in the query of an address: pairs of names and values with `&` between them. A plus sign is a
blank, and a percent sign and two hexadecimal digits are a byte; bad escapes stay as they are, and what
is no text then is replaced.
-/

namespace SourceIndex.Http
open Text

/-- The bytes of an escaped text. -/
def unescape : Chars → List UInt8
  | [] => []
  | '+' :: rest => 0x20 :: unescape rest
  | '%' :: a :: b :: rest =>
    match hexValue? a, hexValue? b with
    | some high, some low => (high * 16 + low).toUInt8 :: unescape rest
    | _, _ => '%'.toNat.toUInt8 :: unescape (a :: b :: rest)
  | c :: rest => encodeChar c ++ unescape rest

def formText (s : Chars) : String := String.ofList (decodeLossy (unescape s))

/-- A name and a value; without an equals sign the value is empty. -/
def formPair (s : Chars) : String × String :=
  match splitFirst? ['='] s with
  | some (name, value) => (formText name, formText value)
  | none => (formText s, "")

/-- The pairs of a query. -/
def formPairs (query : Chars) : List (String × String) :=
  ((splitOn '&' query).filter (!·.isEmpty)).map formPair

/-- The values that a query gives to a name. -/
def valuesOf (name : String) (pairs : List (String × String)) : List String :=
  (pairs.filter (·.1 == name)).map Prod.snd

end SourceIndex.Http
