import SourceIndex.Text.Pattern
import SourceIndex.Entity.Language

/-!
The module names that a file imports and the names that it exports. Each form of import and export is
a pattern over the whole text; the forms are searched one after the other, and a name counts where it
is first found.
-/

namespace SourceIndex
open Text

/-- What a file imports and exports, attached to the entities of the file. -/
structure Symbols where
  imports : List Chars
  exports : List Chars
  deriving DecidableEq, Repr

namespace Symbols
open Pattern

def isQuote (c : Char) : Bool := c = '"' || c = '\''

def isIdentifierPart (c : Char) : Bool := isWord c || c = '$'

/-- An identifier, kept as capture 1. -/
def identifier : Pattern := .capture 1 (.one isNameStart ++ .many isIdentifierPart)

/-- A quoted module name, kept as capture 1. -/
def moduleName : Pattern :=
  .one isQuote ++ .capture 1 (.many1 (!isQuote ·)) ++ .one isQuote

/-- A keyword and the blanks after it. -/
def keyword (s : String) : Pattern := word s ++ blanks1

/-- A keyword that may be there. -/
def keyword? (s : String) : Pattern := .optional (keyword s)

/-- The start of a line, maybe indented. -/
def indented : Pattern := .lineStart ++ blanks

def importFrom : Pattern :=
  let isClausePart (c : Char) : Bool := isIdentifierPart c || isBlank c || "*\x7b\x7d,".toList.contains c
  indented ++ keyword "import" ++ keyword? "type" ++ .one isClausePart ++ .fewest isClausePart ++
    blanks1 ++ word "from" ++ blanks ++ moduleName

def importBare : Pattern := indented ++ word "import" ++ blanks ++ moduleName

def exportFrom : Pattern :=
  indented ++ keyword "export" ++ keyword? "type" ++
    .either (word "*" ++ .optional (blanks1 ++ keyword "as" ++ .many1 isIdentifierPart))
      (.one (· == '\x7b') ++ .many (· != '\x7d') ++ .one (· == '\x7d')) ++
    blanks ++ word "from" ++ blanks ++ moduleName

/-- A module name as the only argument of a call. -/
def argumentOf (callee : String) : Pattern :=
  .wordEdge ++ word callee ++ word "(" ++ blanks ++ moduleName ++ blanks ++ word ")"

def scriptImports : List Pattern :=
  [importFrom, importBare, exportFrom, argumentOf "require", argumentOf "import"]

def pythonImport : Pattern :=
  indented ++ keyword "import" ++ .capture 1 (.many1 fun c => c != '\n' && c != '#')

def pythonFrom : Pattern :=
  indented ++ keyword "from" ++ .capture 1 (.many1 fun c => isWord c || c = '.') ++ blanks1 ++
    word "import" ++ .wordEdge

/-- Capture 1 of every match. -/
def captured (pattern : Pattern) (s : Chars) : List Chars :=
  (pattern.findAll s).map (·.get 1)

def importsOf (s : Chars) : Language → List Chars
  | .script => distinctTrimmed (scriptImports.flatMap (captured · s))
  | .python =>
    let modules := (captured pythonImport s).flatMap (splitOn ',')
    distinctTrimmed (modules.filterMap (words · |>.head?) ++ captured pythonFrom s)
  | .other => []

def exportDeclaration : Pattern :=
  indented ++ keyword "export" ++ keyword? "default" ++ keyword? "declare" ++ keyword? "abstract" ++
    keyword? "async" ++
    .either (word "function" ++ blanks ++ .optional (word "*"))
      (anyOf ["class", "const", "let", "var", "interface", "type", "enum"]) ++
    blanks1 ++ identifier

def exportList : Pattern :=
  indented ++ keyword "export" ++ keyword? "type" ++ .one (· == '\x7b') ++
    .capture 1 (.many (· != '\x7d')) ++ .one (· == '\x7d')

def exportDefaultName : Pattern :=
  indented ++ keyword "export" ++ keyword "default" ++ identifier ++ blanks ++
    .optional (word ";") ++ blanks ++ .lineEnd

def pythonTopLevel : Pattern :=
  .lineStart ++ .either (keyword "async" ++ word "def") (anyOf ["def", "class"]) ++ blanks1 ++
    .capture 1 (.one isAsciiLetter ++ .many isWord)

/-- The name under which an item of an export list is exported. -/
def exportedName (item : Chars) : Chars :=
  let item := trim (stripRepeated "type ".toList (trim item))
  match splitFirst? " as ".toList item with
  | some (_, other) => other
  | none => item

def exportsOf (s : Chars) : Language → List Chars
  | .script =>
    distinctTrimmed (captured exportDeclaration s ++
      ((captured exportList s).flatMap (splitOn ',')).map exportedName ++
      captured exportDefaultName s)
  | .python => distinctTrimmed (captured pythonTopLevel s)
  | .other => []

def ofText (s : Chars) (language : Language) : Symbols :=
  ⟨importsOf s language, exportsOf s language⟩

end Symbols
end SourceIndex
