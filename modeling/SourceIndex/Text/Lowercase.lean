import SourceIndex.Text.Lines

/-!
The full map to lower case. Apart from single letters it has two rules: a capital I with a dot
becomes two characters, and a capital sigma that ends a word becomes the final sigma. A sigma ends a
word if a cased character comes before it and none after it, both times passing over characters that
case ignores.
-/

namespace SourceIndex.Text

def isCased (c : Char) : Bool :=
  if c.toNat < 128 then isAsciiLetter c else casedTable.holds c

def isCaseIgnorable (c : Char) : Bool := caseIgnorableTable.holds c

/-- The lower-case letter of a character that has a single one, else the character. -/
def lowerChar (c : Char) : Char :=
  if c.toNat < 128 then c.toLower
  else
    match lowerRuns.find? fun run => run.first ≤ c.toNat && c.toNat ≤ run.last with
    | some run =>
      if (c.toNat - run.first) % run.step = 0 then Char.ofNat ((c.toNat : Int) + run.offset).toNat
      else c
    | none => c

/-- The next character that case does not ignore is cased. -/
def nextIsCased (s : Chars) : Bool :=
  match s.dropWhile isCaseIgnorable with
  | c :: _ => isCased c
  | [] => false

/-- Lower case of the text that follows the reversed text `before`. -/
def lowercaseAfter : Chars → Chars → Chars
  | _, [] => []
  | before, c :: rest =>
    let lowered :=
      if c = 'İ' then ['i', Char.ofNat 0x307]
      else if c = 'Σ' then [if nextIsCased before && !nextIsCased rest then 'ς' else 'σ']
      else [lowerChar c]
    lowered ++ lowercaseAfter (c :: before) rest

def lowercase (s : Chars) : Chars := lowercaseAfter [] s

end SourceIndex.Text
