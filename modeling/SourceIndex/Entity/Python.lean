import SourceIndex.Entity.Docstring
import SourceIndex.Entity.Indentation
import SourceIndex.Entity.Span

/-!
Declarations in Python files. Classes are found at any indent, functions only at the start of a line,
and the methods of a class are the definitions at the indent of the first line of its body.
-/

namespace SourceIndex.Python
open Text Text.Pattern Symbols

def name : Pattern :=
  .capture 1 (.one (fun c => isAsciiLetter c || c = '_') ++ .many isWord)

def classHeader : Pattern :=
  .lineStart ++ blanks ++ keyword "class" ++ name ++ blanks ++
    .optional (word "(" ++ .capture 2 (.many (· != ')')) ++ word ")") ++ blanks ++ word ":"

/-- A definition at the start of a line. -/
def definition : Pattern :=
  .lineStart ++ keyword? "async" ++ keyword "def" ++ name ++ blanks ++ word "("

/-- A definition at any indent. -/
def indentedDefinition : Pattern :=
  .lineStart ++ blanks ++ keyword? "async" ++ keyword "def" ++ name ++ blanks ++ word "("

/-- The first base that is no keyword argument; the common base of all classes does not count. -/
def parent? (bases : Chars) : Option Chars :=
  (((splitOn ',' bases).map trim).find? fun base => !base.isEmpty && !base.contains '=').filter
    (· != "object".toList)

/-- The comment above a declaration, else the quoted block in its body. -/
def doc? (lines : List Chars) (i : Nat) : Option Chars :=
  Docstring.before? lines i <|> Docstring.inBody? lines (Indentation.headerEnd lines i)

def methodSpan? (lines : List Chars) (className : Chars) (memberIndent i : Nat) (line : Chars) :
    Option Span :=
  if Indentation.indent line ≠ memberIndent then none
  else
    (indentedDefinition.match? line).map fun captures =>
      { kind := .method
        name := className ++ ['.'] ++ captures.get 1
        start := i
        stop := Indentation.blockEnd lines i
        doc := doc? lines i
        parent := some className
        exported := none }

/-- The methods of the class on lines `start` to `stop`. -/
def methodSpans (lines : List Chars) (className : Chars) (start stop : Nat) : List Span :=
  match Indentation.innerIndent lines start stop with
  | none => []
  | some memberIndent =>
    let first := Indentation.headerEnd lines start + 1
    ((lines.zipIdx.take (stop + 1)).drop first).filterMap fun (line, i) =>
      methodSpan? lines className memberIndent i line

def classSpans (lines : List Chars) (i : Nat) (line : Chars) : List Span :=
  match classHeader.match? line with
  | none => []
  | some captures =>
    let name := captures.get 1
    let stop := Indentation.blockEnd lines i
    { kind := .classDef
      name
      start := i
      stop
      doc := doc? lines i
      parent := (captures.get? 2).bind parent?
      exported := if Indentation.indent line = 0 then some name else none } ::
      methodSpans lines name i stop

def functionSpan? (lines : List Chars) (i : Nat) (line : Chars) : Option Span :=
  (definition.match? line).map fun captures =>
    { kind := .function
      name := captures.get 1
      start := i
      stop := Indentation.blockEnd lines i
      doc := doc? lines i
      parent := none
      exported := some (captures.get 1) }

/-- All declarations: classes with their methods, then functions. -/
def spans (lines : List Chars) : List Span :=
  let numbered := lines.zipIdx
  numbered.flatMap (fun (line, i) => classSpans lines i line) ++
    numbered.filterMap fun (line, i) => functionSpan? lines i line

end SourceIndex.Python
