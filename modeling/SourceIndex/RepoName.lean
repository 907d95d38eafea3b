import SourceIndex.Text.Lines

/-!
Full names of repositories: an owner and a repository name with a slash between them, both of a
narrow alphabet, so that a full name fits into a path or an address as it stands.
-/

namespace SourceIndex
open Text

structure RepoName where
  owner : String
  name : String
  deriving DecidableEq, Repr

namespace RepoName

def isPartChar (c : Char) : Bool :=
  isAsciiAlphanumeric c || c = '-' || c = '_' || c = '.'

/-- A part is not empty, stays in the alphabet and is no relative path component. -/
def isPart (part : Chars) : Bool :=
  !part.isEmpty && part ≠ ['.'] && part ≠ ['.', '.'] && part.all isPartChar

/-- The parts of a full name, if it is one. -/
def ofFullName? (fullName : String) : Option RepoName :=
  match splitFirst? ['/'] fullName.toList with
  | some (owner, name) =>
    if isPart owner && isPart name then some ⟨String.ofList owner, String.ofList name⟩ else none
  | none => none

def fullName (repo : RepoName) : String := repo.owner ++ "/" ++ repo.name

end RepoName
end SourceIndex
