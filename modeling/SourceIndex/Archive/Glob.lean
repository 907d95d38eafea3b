import SourceIndex.Text.Utf8

/-!
Globs: patterns of paths. A pattern is matched against the bytes of a path as a whole; wildcards match
slashes too, and only a doubled star that stands for whole components treats them as separators.
-/

namespace SourceIndex.Archive

namespace Glob

inductive Token where
  | literal (c : Char)
  /-- Any byte. -/
  | any
  /-- Any bytes. -/
  | many
  /-- Nothing, or any components and the slash after them. -/
  | leading
  /-- A slash and any bytes. -/
  | trailing
  /-- A slash, or any components between slashes. -/
  | between
  /-- A byte of the ranges of a class, or one outside of them. -/
  | oneOf (negated : Bool) (ranges : List (Char × Char))
  | either (branches : List (List Token))
  deriving Repr

end Glob

/-- A pattern as a list of tokens. -/
abbrev Glob := List Glob.Token

namespace Glob
open Text

/-! ### Matching -/

/-- Some end of the bytes is accepted. -/
def someEnd (accept : List UInt8 → Bool) : List UInt8 → Bool
  | [] => accept []
  | b :: rest => accept (b :: rest) || someEnd accept rest

/-- The bytes start with a slash and what follows it is accepted. -/
def afterSlash (accept : List UInt8 → Bool) : List UInt8 → Bool
  | [] => false
  | b :: rest => b = '/'.toNat.toUInt8 && accept rest

/-- The bytes of a class: those of single characters, and those between the last byte of the one end
of a range and the first byte of the other. -/
def rangeHolds (b : UInt8) (range : Char × Char) : Bool :=
  let low := encodeChar range.1
  let high := encodeChar range.2
  if range.1 = range.2 then low.contains b
  else
    low.dropLast.contains b || high.tail.contains b ||
      (low.getLastD 0 ≤ b && b ≤ high.headD 0)

/-- The bytes start with a literal and what follows it is accepted. -/
def afterText (literal : List UInt8) (accept : List UInt8 → Bool) (s : List UInt8) : Bool :=
  literal.isPrefixOf s && accept (s.drop literal.length)

mutual

/-- The token matches nothing but the empty text because it has no other branch. -/
def Token.isVoid : Token → Bool
  | .either branches => areVoid branches
  | _ => false

def isVoid : List Token → Bool
  | [] => true
  | token :: rest => token.isVoid && isVoid rest

def areVoid : List (List Token) → Bool
  | [] => true
  | branch :: rest => isVoid branch && areVoid rest

end

mutual

/-- The token matches some beginning of the bytes after which the rest is accepted. -/
def Token.run : Token → (List UInt8 → Bool) → List UInt8 → Bool
  | .literal c, accept, s => afterText (encodeChar c) accept s
  | .any, accept, s =>
    match s with
    | [] => false
    | _ :: rest => accept rest
  | .many, accept, s => someEnd accept s
  | .leading, accept, s => accept s || someEnd (afterSlash accept) s
  | .trailing, accept, s => afterSlash (someEnd accept) s
  | .between, accept, s => afterSlash (fun rest => accept rest || someEnd (afterSlash accept) rest) s
  | .oneOf negated ranges, accept, s =>
    match s with
    | [] => false
    | b :: rest => (ranges.any (rangeHolds b) != negated) && accept rest
  | .either branches, accept, s =>
    if areVoid branches then accept s else runEither branches accept s

def run : List Token → (List UInt8 → Bool) → List UInt8 → Bool
  | [], accept, s => accept s
  | token :: rest, accept, s => token.run (run rest accept) s

/-- Some branch matches; branches for nothing but the empty text do not count. -/
def runEither : List (List Token) → (List UInt8 → Bool) → List UInt8 → Bool
  | [], _, _ => false
  | branch :: rest, accept, s =>
    (!isVoid branch && run branch accept s) || runEither rest accept s

end

/-- The pattern matches the whole of a path; a doubled star alone matches every path. -/
def holds (glob : Glob) (path : List UInt8) : Bool :=
  match glob with
  | [.leading] => true
  | _ => run glob List.isEmpty path

/-! ### Reading -/

/-- A group of branches that is not closed yet: the tokens before it, and its finished branches, each
in reverse. -/
structure Group where
  before : List Token
  branches : List (List Token)

/-- The rest of a class: its ranges in reverse so far, whether it has just started and whether the
last range waits for its upper end. -/
def readClass : Chars → List (Char × Char) → Bool → Bool → Option (List (Char × Char) × Chars)
  | [], _, _, _ => none
  | c :: rest, ranges, first, waiting =>
    if c = ']' && !first then
      some ((if waiting then ('-', '-') :: ranges else ranges).reverse, rest)
    else if c = '-' && !first && !waiting then readClass rest ranges false true
    else if waiting then
      match ranges with
      | (low, _) :: others =>
        if c < low then none else readClass rest ((low, c) :: others) false false
      | [] => none
    else readClass rest ((c, c) :: ranges) false false

/-- A doubled star: the tokens of the branch with it, and what follows it. It stands for components at
the start of a branch before a slash or the end, and after a slash before a slash, the end of the
pattern or the end of the branch. -/
def readStars (previous : Option Char) (nested : Bool) (tokens : List Token) (rest : Chars) :
    List Token × Chars :=
  let loose := (.many :: .many :: tokens, rest)
  let joined (token : Token) (rest : Chars) : List Token × Chars :=
    match tokens with
    | .leading :: _ | .trailing :: _ => (tokens, rest)
    | _ :: others => (token :: others, rest)
    | [] => ([token], rest)
  if tokens.isEmpty then
    match rest with
    | [] => ([.leading], [])
    | '/' :: rest => ([.leading], rest)
    | _ => loose
  else if previous ≠ some '/' && !(nested && (previous = some ',' || previous = some '\x7b')) then loose
  else
    match rest with
    | [] => joined .trailing []
    | '/' :: rest => joined .between rest
    | c :: _ => if nested && (c = ',' || c = '\x7d') then joined .trailing rest else loose

/-- Read on after a character: the tokens of the branch in reverse and the open groups. Each step
takes a character, so the length bounds their number. -/
def readFrom : Nat → Option Char → List Token → List Group → Chars → Option Glob
  | 0, _, _, _, _ => none
  | _ + 1, _, tokens, [], [] => some tokens.reverse
  | _ + 1, _, _, _ :: _, [] => none
  | fuel + 1, previous, tokens, groups, c :: rest =>
    let push (token : Token) : Option Glob := readFrom fuel (some c) (token :: tokens) groups rest
    match c, groups, rest with
    | '?', _, _ => push .any
    | '*', _, '*' :: rest =>
      let (tokens, after) := readStars previous (!groups.isEmpty) tokens rest
      readFrom fuel (some (if after.length < rest.length then '/' else '*')) tokens groups after
    | '*', _, _ => push .many
    | '[', _, _ =>
      let negated := rest.head? = some '!' || rest.head? = some '^'
      match readClass (if negated then rest.tail else rest) [] true false with
      | some (ranges, rest) =>
        readFrom fuel (some ']') (.oneOf negated ranges :: tokens) groups rest
      | none => none
    | '\x7b', _, _ => readFrom fuel (some c) [] (⟨tokens, []⟩ :: groups) rest
    | '\x7d', group :: groups, _ =>
      let branches := (tokens.reverse :: group.branches).reverse
      readFrom fuel (some c) (.either branches :: group.before) groups rest
    | '\x7d', [], _ => none
    | ',', group :: groups, _ =>
      readFrom fuel (some c) [] (⟨group.before, tokens.reverse :: group.branches⟩ :: groups) rest
    | '\\', _, [] => none
    | '\\', _, c :: rest => readFrom fuel (some c) (.literal c :: tokens) groups rest
    | c, _, _ => push (.literal c)

/-- The pattern that a text is. -/
def parse? (text : String) : Option Glob :=
  readFrom (text.toList.length + 1) none [] [] text.toList

end Glob
end SourceIndex.Archive
