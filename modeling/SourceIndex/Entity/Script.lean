import SourceIndex.Entity.Braces
import SourceIndex.Entity.Docstring
import SourceIndex.Entity.Span

/-!
Declarations in script files. Classes are found on any line, functions and components only where a
line starts with them. The members of a class are the lines at brace depth one inside it that look
like a method or like a property that holds an arrow function.
-/

namespace SourceIndex.Script
open Text Text.Pattern Symbols

/-- Names that look like a method but are none. -/
def methodKeywords : List Chars :=
  ["if", "for", "while", "switch", "catch", "return", "function", "new", "await", "typeof", "super",
    "constructor"].map String.toList

/-- How many lines past its declaration a component covers. -/
def componentReach : Nat := 50

def typeArguments : Pattern :=
  .optional (word "<" ++ .many (· != '>') ++ word ">")

/-- A type annotation before an equals sign, of at least one character. -/
def annotation : Pattern := .optional (word ":" ++ .many1 (· != '='))

/-- A type annotation before an equals sign, maybe without a type. -/
def looseAnnotation : Pattern := .optional (word ":" ++ .many (· != '='))

def classHeader : Pattern :=
  .lineStart ++ blanks ++ keyword? "export" ++ keyword? "default" ++ keyword? "declare" ++
    keyword? "abstract" ++ keyword "class" ++ identifier ++
    .optional (blanks ++ word "<" ++ .many (fun c => c != '>' && c != '\x7b') ++ word ">") ++
    .optional (blanks1 ++ keyword "extends" ++
      .capture 2 (.one isNameStart ++ .many fun c => isIdentifierPart c || c = '.'))

/-- A member name, which may be private to its class, kept as capture 1. -/
def memberName : Pattern :=
  .capture 1 (.optional (word "#") ++ .one isNameStart ++ .many isIdentifierPart)

def method : Pattern :=
  .lineStart ++ blanks ++
    .repeated (anyOf ["public", "private", "protected", "static", "async", "readonly", "override",
      "abstract", "get", "set"] ++ blanks1) ++
    .optional (word "*") ++ blanks ++ memberName ++ blanks ++ typeArguments ++ blanks ++ word "("

/-- Parameters of an arrow function: a list in brackets or one name. -/
def arrowParameters : Pattern :=
  .either (word "(" ++ .many (· != ')') ++ word ")") (.one isNameStart ++ .many isIdentifierPart)

def arrowProperty : Pattern :=
  .lineStart ++ blanks ++
    .repeated (anyOf ["public", "private", "protected", "static", "readonly", "override"] ++ blanks1) ++
    memberName ++ blanks ++ annotation ++ word "=" ++ blanks ++ keyword? "async" ++
    arrowParameters ++ blanks ++ annotation ++ word "=>"

def functionHeader : Pattern :=
  .lineStart ++ keyword? "export" ++ keyword? "default" ++ keyword? "async" ++ word "function" ++
    blanks ++ .optional (word "*") ++ blanks ++ identifier ++ blanks ++ typeArguments ++ blanks ++
    word "("

def arrowHeader : Pattern :=
  .lineStart ++ keyword? "export" ++ anyOf ["const", "let", "var"] ++ blanks1 ++ identifier ++
    blanks ++ looseAnnotation ++ word "=" ++ blanks ++ keyword? "async" ++
    .either (word "function" ++ .wordEdge)
      (.either (word "(" ++ .many (· != ')') ++ word ")" ++ blanks ++ looseAnnotation ++ word "=>")
        (.either (word "(" ++ .many (· != ')') ++ .lineEnd)
          (.one isNameStart ++ .many isIdentifierPart ++ blanks ++ word "=>")))

def componentHeader : Pattern :=
  .lineStart ++ keyword? "export" ++ keyword? "default" ++ anyOf ["const", "function"] ++ blanks1 ++
    .capture 1 (.one Char.isUpper ++ .many isIdentifierPart)

/-- A member of a class on lines `start` to `stop`. -/
structure Member where
  name : Chars
  start : Nat
  stop : Nat
  deriving DecidableEq, Repr

/-- The name of the member that a line starts, and whether it is an arrow function. -/
def memberHeader? (line : Chars) : Option (Chars × Bool) :=
  match method.match? line with
  | some captures => some (captures.get 1, false)
  | none => (arrowProperty.match? line).map fun captures => (captures.get 1, true)

/-- A member needs a body, unless it is an arrow function, and a name that is no keyword. -/
def isMember (lines : List Chars) (member : Member) (isArrow : Bool) : Bool :=
  !methodKeywords.contains member.name &&
    (isArrow || ((lines.drop member.start).take (member.stop + 1 - member.start)).any (·.contains '\x7b'))

/-- The members among lines given with their depths, the next of which has index `i`; lines before
`resume` belong to a member already. -/
def membersFrom (lines : List Chars) (stop resume : Nat) : Nat → List (Chars × Int) → List Member
  | _, [] => []
  | i, (line, depth) :: rest =>
    if i < resume || depth ≠ 1 then membersFrom lines stop resume (i + 1) rest
    else
      match memberHeader? line with
      | none => membersFrom lines stop resume (i + 1) rest
      | some (name, isArrow) =>
        let member : Member := ⟨name, i, min (Braces.blockEnd lines i) stop⟩
        let later := membersFrom lines stop (member.stop + 1) (i + 1) rest
        if isMember lines member isArrow then member :: later else later

/-- The members of the class on lines `start` to `stop`. -/
def members (lines : List Chars) (start stop : Nat) : List Member :=
  let inside := (lines.drop start).take (stop + 1 - start)
  membersFrom lines stop 0 (start + 1) ((inside.zip (Braces.depths lines start stop)).drop 1)

def methodSpan (lines : List Chars) (className : Chars) (member : Member) : Span where
  kind := .method
  name := className ++ ['.'] ++ member.name
  start := member.start
  stop := member.stop
  doc := Docstring.before? lines member.start
  parent := some className
  exported := none

def classSpans (lines : List Chars) (i : Nat) (line : Chars) : List Span :=
  match classHeader.match? line with
  | none => []
  | some captures =>
    let name := captures.get 1
    let stop := Braces.blockEnd lines i
    { kind := .classDef
      name
      start := i
      stop
      doc := Docstring.before? lines i
      parent := captures.get? 2
      exported := some name } :: (members lines i stop).map (methodSpan lines name)

def functionSpan? (lines : List Chars) (i : Nat) (line : Chars) : Option Span :=
  (functionHeader.match? line <|> arrowHeader.match? line).map fun captures =>
    { kind := .function
      name := captures.get 1
      start := i
      stop := Braces.blockEnd lines i
      doc := Docstring.before? lines i
      parent := none
      exported := some (captures.get 1) }

/-- A component is declared under a capitalised name and returns something in brackets. -/
def componentSpan? (lines : List Chars) (i : Nat) (line : Chars) : Option Span :=
  match componentHeader.match? line with
  | none => none
  | some captures =>
    if containsText "return (".toList (Entity.textOf lines i (Braces.blockEnd lines i)) then
      some
        { kind := .component
          name := captures.get 1
          start := i
          stop := min (i + componentReach) (lines.length - 1)
          doc := Docstring.before? lines i
          parent := none
          exported := some (captures.get 1) }
    else none

/-- All declarations: classes with their members, then functions, then components. -/
def spans (lines : List Chars) (withComponents : Bool) : List Span :=
  let numbered := lines.zipIdx
  numbered.flatMap (fun (line, i) => classSpans lines i line) ++
    numbered.filterMap (fun (line, i) => functionSpan? lines i line) ++
    if withComponents then numbered.filterMap fun (line, i) => componentSpan? lines i line else []

end SourceIndex.Script
