import SourceIndex.Chunk.Metadata
import SourceIndex.Text.Decimal

/-!
Filters over metadata: clauses that a field equals a text, joined by `AND`. Writing escapes quotes and
backslashes and drops control characters; reading accepts any blanks and any case of the keyword.
-/

namespace SourceIndex.VectorIndex.Filter
open Text

/-- A field and the text it has to hold. -/
structure Clause where
  field : String
  value : String
  deriving DecidableEq, Repr

/-! ### Writing -/

def escapeChar (c : Char) : Chars :=
  if c = '\\' then ['\\', '\\']
  else if c = '\'' then ['\\', '\'']
  else if isControl c then []
  else [c]

/-- A text that is safe between single quotes. -/
def escape (value : String) : String := String.ofList (value.toList.flatMap escapeChar)

def Clause.text (clause : Clause) : String :=
  clause.field ++ " = '" ++ escape clause.value ++ "'"

/-- The clauses that hold for the chunks of one repository of one user. -/
def scopeClauses (repo user : String) : List Clause :=
  [⟨Chunk.Metadata.repoField, repo⟩, ⟨Chunk.Metadata.userField, user⟩]

/-- The filter for the chunks of one repository of one user. -/
def scope (repo user : String) : String :=
  " AND ".intercalate ((scopeClauses repo user).map Clause.text)

/-! ### Reading -/

def isFieldChar (c : Char) : Bool := isAlphanumeric c || c = '_' || c = '.'

/-- The text up to the closing quote, after the reversed beginning `done`. -/
def readLiteral : Chars → Chars → Option (Chars × Chars)
  | [], _ => none
  | '\\' :: c :: rest, done => readLiteral rest (c :: done)
  | '\'' :: rest, done => some (done.reverse, rest)
  | c :: rest, done => if c = '\\' then none else readLiteral rest (c :: done)

/-- One clause and the text after it. -/
def readClause (s : Chars) : Option (Clause × Chars) := do
  let s := trimStart s
  let field := s.takeWhile isFieldChar
  if field.isEmpty then none
  let s ← stripStart? ['='] (trimStart (s.dropWhile isFieldChar))
  let s ← stripStart? ['\''] (trimStart s)
  let (value, s) ← readLiteral s []
  some (⟨String.ofList field, String.ofList value⟩, s)

/-- Clauses with `AND` between them; a clause takes some text, so the length bounds their number. -/
def readClauses : Nat → Chars → Option (List Clause)
  | 0, _ => none
  | fuel + 1, s =>
    match readClause s with
    | none => none
    | some (clause, rest) =>
      match trimStart rest with
      | [] => some [clause]
      | rest =>
        if asciiLower (rest.take 3) = "and".toList then
          (readClauses fuel (rest.drop 3)).map (clause :: ·)
        else none

/-- The clauses of a filter, if it is a filter. -/
def parse? (filter : String) : Option (List Clause) :=
  readClauses (filter.toList.length + 1) filter.toList

/-- The metadata satisfies every clause. -/
def holds (clauses : List Clause) (metadata : Json) : Bool :=
  clauses.all fun clause => metadata.stringField? clause.field == some clause.value

end SourceIndex.VectorIndex.Filter
