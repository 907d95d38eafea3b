import SourceIndex.Path

/-!
The language families that are searched for more than file entities.
-/

namespace SourceIndex
open Text

inductive Language where
  | script
  | python
  | other
  deriving DecidableEq, Repr

namespace Language

/-- The family of a lower-case file extension. -/
def ofExtension (ext : Chars) : Language :=
  if ["js", "jsx", "ts", "tsx", "mjs", "cjs", "vue", "svelte"].contains (String.ofList ext) then .script
  else if ext = "py".toList then .python
  else .other

/-- The family of a kernel language name, in any case. -/
def ofName (name : Chars) : Language :=
  let name := String.ofList (asciiLower name)
  if ["python", "python3"].contains name then .python
  else if ["javascript", "typescript"].contains name then .script
  else .other

/-- Files of these extensions may hold user interface components. -/
def hasComponents (ext : Chars) : Bool :=
  ["tsx", "jsx", "vue", "svelte"].contains (String.ofList ext)

end Language
end SourceIndex
