import SourceIndex.Text.Lines

/-!
Patterns over text with captured parts, matched with ordered choice: of two alternatives the left
one is tried first, a run of characters is tried from its longest or from its shortest extent, and
the first way to match the whole pattern wins. Patterns are data, so each scanner states the shape of
what it looks for; the matcher is structural in the pattern and takes the rest of the match as a
continuation.
-/

namespace SourceIndex.Text

inductive Pattern where
  | empty
  /-- The given characters. -/
  | text (cs : Chars)
  /-- One character of a class. -/
  | one (p : Char → Bool)
  /-- A run, maybe empty, of characters of a class, longest first. -/
  | many (p : Char → Bool)
  /-- A run, maybe empty, of characters of a class, shortest first. -/
  | fewest (p : Char → Bool)
  /-- The start of the text or of a line. -/
  | lineStart
  /-- The end of the text or of a line. -/
  | lineEnd
  /-- A word character on one side and none on the other. -/
  | wordEdge
  | seq (a b : Pattern)
  | either (a b : Pattern)
  /-- Any number of matches one after the other, as many as possible first. -/
  | repeated (a : Pattern)
  /-- The part of the text that the pattern matches is kept under a number. -/
  | capture (slot : Nat) (a : Pattern)

namespace Pattern

instance : Append Pattern := ⟨.seq⟩

/-- A match of the pattern if there is one, else nothing. -/
def optional (a : Pattern) : Pattern := .either a .empty

/-- A run of at least one character of a class, longest first. -/
def many1 (p : Char → Bool) : Pattern := .one p ++ .many p

def word (s : String) : Pattern := .text s.toList

/-- One of several words, the first that leads to a match. -/
def anyOf : List String → Pattern
  | [] => .one fun _ => false
  | [s] => word s
  | s :: rest => .either (word s) (anyOf rest)

def blanks : Pattern := .many isBlank

def blanks1 : Pattern := .many1 isBlank

/-- A place in a text: the character before it, the number of characters before it, and the rest. -/
structure Place where
  before : Option Char
  offset : Nat
  rest : Chars

namespace Place

/-- The place after the next character `c`, which `rest` follows. -/
def next (place : Place) (c : Char) (rest : Chars) : Place := ⟨some c, place.offset + 1, rest⟩

def atLineStart (place : Place) : Bool :=
  match place.before with
  | none => true
  | some c => c == '\n'

def atLineEnd (place : Place) : Bool :=
  match place.rest with
  | [] => true
  | c :: _ => c == '\n'

def atWordEdge (place : Place) : Bool :=
  let left := place.before.any isWord
  let right := place.rest.head?.any isWord
  left != right

end Place

/-- Captured parts by number, the latest first. -/
abbrev Captures := List (Nat × Chars)

def Captures.get? (captures : Captures) (slot : Nat) : Option Chars := captures.lookup slot

/-- The text of a capture that every match of the pattern has. -/
def Captures.get (captures : Captures) (slot : Nat) : Chars := (captures.get? slot).getD []

/-- A match: where it ends and what it captured. -/
structure Found where
  finish : Nat
  captures : Captures

/-- What is left to match at a place, given the captures so far. -/
abbrev Continuation := Place → Captures → Option Found

def textThen (k : Continuation) : Chars → Continuation
  | [], place, captures => k place captures
  | c :: cs, place, captures =>
    match place.rest with
    | d :: rest => if c = d then textThen k cs (place.next d rest) captures else none
    | [] => none

def oneThen (p : Char → Bool) (k : Continuation) : Continuation := fun place captures =>
  match place.rest with
  | c :: rest => if p c then k (place.next c rest) captures else none
  | [] => none

def manyThen (p : Char → Bool) (k : Continuation) (captures : Captures) :
    Chars → Option Char → Nat → Option Found
  | [], before, offset => k ⟨before, offset, []⟩ captures
  | c :: rest, before, offset =>
    if p c then
      match manyThen p k captures rest (some c) (offset + 1) with
      | some found => some found
      | none => k ⟨before, offset, c :: rest⟩ captures
    else k ⟨before, offset, c :: rest⟩ captures

def fewestThen (p : Char → Bool) (k : Continuation) (captures : Captures) :
    Chars → Option Char → Nat → Option Found
  | [], before, offset => k ⟨before, offset, []⟩ captures
  | c :: rest, before, offset =>
    match k ⟨before, offset, c :: rest⟩ captures with
    | some found => some found
    | none => if p c then fewestThen p k captures rest (some c) (offset + 1) else none

/-- Repeat a step that consumes text, at most `fuel` times; the rest of the text bounds the count. -/
def repeatedThen (once : Continuation → Continuation) (k : Continuation) : Nat → Continuation
  | 0, place, captures => k place captures
  | fuel + 1, place, captures =>
    match once (fun after captures =>
        if place.offset < after.offset then repeatedThen once k fuel after captures else none)
        place captures with
    | some found => some found
    | none => k place captures

/-- Match the pattern at a place and go on with `k`. -/
def matchThen : Pattern → Continuation → Continuation
  | .empty, k => k
  | .text cs, k => textThen k cs
  | .one p, k => oneThen p k
  | .many p, k => fun place captures =>
    manyThen p k captures place.rest place.before place.offset
  | .fewest p, k => fun place captures =>
    fewestThen p k captures place.rest place.before place.offset
  | .lineStart, k => fun place captures => if place.atLineStart then k place captures else none
  | .lineEnd, k => fun place captures => if place.atLineEnd then k place captures else none
  | .wordEdge, k => fun place captures => if place.atWordEdge then k place captures else none
  | .seq a b, k => a.matchThen (b.matchThen k)
  | .either a b, k => fun place captures =>
    match a.matchThen k place captures with
    | some found => some found
    | none => b.matchThen k place captures
  | .repeated a, k => fun place captures =>
    repeatedThen a.matchThen k place.rest.length place captures
  | .capture slot a, k => fun place captures =>
    a.matchThen
      (fun after captures =>
        k after ((slot, place.rest.take (after.offset - place.offset)) :: captures))
      place captures

def matchAt (pattern : Pattern) (place : Place) : Option Found :=
  pattern.matchThen (fun place captures => some ⟨place.offset, captures⟩) place []

/-- The captures of a match that starts where the text starts. -/
def match? (pattern : Pattern) (s : Chars) : Option Captures :=
  (pattern.matchAt ⟨none, 0, s⟩).map Found.captures

/-- The matches from left to right that do not overlap, after skipping `skip` characters. -/
def findFrom (pattern : Pattern) : Option Char → Nat → Nat → Chars → List Captures
  | _, _, _, [] => []
  | _, offset, skip + 1, c :: rest => findFrom pattern (some c) (offset + 1) skip rest
  | before, offset, 0, c :: rest =>
    match pattern.matchAt ⟨before, offset, c :: rest⟩ with
    | some found =>
      found.captures :: findFrom pattern (some c) (offset + 1) (found.finish - offset - 1) rest
    | none => findFrom pattern (some c) (offset + 1) 0 rest

/-- The captures of all matches in a text, for a pattern that matches no empty text. -/
def findAll (pattern : Pattern) (s : Chars) : List Captures := findFrom pattern none 0 0 s

end Pattern
end SourceIndex.Text
