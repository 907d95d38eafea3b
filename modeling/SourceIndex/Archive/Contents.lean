import SourceIndex.Archive.PathFilter
import SourceIndex.Archive.Tar

/-!
The text files of a repository archive. The archive wraps the tree in one top-level directory, which
is dropped from the paths. Files that the filter rejects, that are too large, that hold a zero byte or
that are no text are counted; a stream that fails gives no contents at all.
-/

namespace SourceIndex.Archive
open Text

structure Contents where
  /-- Paths and texts, sorted by path, each path once. -/
  files : List (String × String)
  filtered : Nat
  oversize : Nat
  binary : Nat
  undecodable : Nat
  deriving DecidableEq, Repr

namespace Contents

def empty : Contents := ⟨[], 0, 0, 0, 0⟩

/-- Put a file into a sorted list, in place of one of the same path. -/
def insert (path text : String) : List (String × String) → List (String × String)
  | [] => [(path, text)]
  | (p, t) :: rest =>
    if path < p then (path, text) :: (p, t) :: rest
    else if path = p then (path, text) :: rest
    else (p, t) :: insert path text rest

/-- The path below the top-level directory. -/
def belowTop? (path : Chars) : Option Chars :=
  match splitFirst? ['/'] path with
  | some (_, rest) =>
    match rest.dropWhile (· = '/') with
    | [] => none
    | rest => some rest
  | none => none

/-- The path of a member that is a file of the repository. -/
def filePath? (member : Tar.Member) : Option Chars :=
  if member.isFile then (decode? member.path).bind belowTop? else none

/-- Add the file with the given bytes. -/
def add (contents : Contents) (path : Chars) (body : List UInt8) : Contents :=
  if body.contains 0 then { contents with binary := contents.binary + 1 }
  else
    match decode? body with
    | none => { contents with undecodable := contents.undecodable + 1 }
    | some text =>
      { contents with files := insert (String.ofList path) (String.ofList text) contents.files }

/-- What fails if the body of a file cannot be read. -/
def unreadable (path : Chars) (fault : Stream.Fault) : Failure :=
  (Failure.outsideSaying fault.text).during
    ("Failed to read " ++ String.ofList path ++ " from tarball")

/-- What fails if the next member cannot be read. -/
def corrupt (fault : Tar.Fault) : Failure :=
  (Failure.outsideSaying fault.text).during "Corrupt tarball entry"

def addMember (filter : PathFilter) (contents : Contents) (member : Tar.Member) :
    Except Failure Contents :=
  match filePath? member with
  | none => .ok contents
  | some path =>
    if !filter.accepts path then .ok { contents with filtered := contents.filtered + 1 }
    else if filter.maxBytes < member.size then
      .ok { contents with oversize := contents.oversize + 1 }
    else
      match member.body with
      | .error fault => .error (unreadable path fault)
      | .ok body => .ok (contents.add path body)

/-- The contents of the members of an archive. -/
def ofListing (filter : PathFilter) (listing : Tar.Listing) : Except Failure Contents := do
  let contents ← listing.members.foldlM (addMember filter) empty
  match listing.fault with
  | none => .ok contents
  | some fault => .error (corrupt fault)

/-- The contents of a gzipped archive. -/
def read (filter : PathFilter) (file : List UInt8) : Except Failure Contents :=
  ofListing filter (Tar.list (Gzip.read file))

end Contents
end SourceIndex.Archive
