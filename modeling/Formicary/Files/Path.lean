import Formicary.Text.Blank

/-!
# Paths

A path is the text it was given as; its parts are divided by slashes. Empty parts and single dots
lead nowhere, so they do not count as names.
-/

namespace Formicary

open Text

/-- The place of a file, as it was given. -/
abbrev Path := String

namespace Path

/-- The parts of a path between slashes, empty ones included. -/
def parts (p : Path) : List String :=
  (stretches (· == '/') p.toList).map String.ofList

/-- The names along a path. Only at the start does a dot count as a name. -/
def names (p : Path) : List String :=
  match p.parts with
  | [] => []
  | first :: rest =>
    let rest := rest.filter fun part => part ≠ "" ∧ part ≠ "."
    if first = "" then rest else first :: rest

/-- The last name along a path, if it names a file or a folder. -/
def fileName? (p : Path) : Option String :=
  p.names.getLast?.filter fun name => name ≠ "." ∧ name ≠ ".."

/-- What follows the last dot of the file name, unless that dot is its first character. -/
def extension? (p : Path) : Option String := do
  let name ← p.fileName?
  let (after, before) := name.toList.reverse.span (· != '.')
  match before with
  | _ :: _ :: _ => some (String.ofList after.reverse)
  | _ => none

/-- Drops what leads nowhere from the front of some parts that are given from the last to the
first. -/
def dropIdle : List String → List String
  | [] => []
  | [first] => if first = "" then [] else [first]
  | part :: rest => if part = "" ∨ part = "." then dropIdle rest else part :: rest

/-- A path without its last name; empty when there is no other name. -/
def parent (p : Path) : Path :=
  "/".intercalate (dropIdle (dropIdle p.parts.reverse).tail).reverse

/-- A path followed by one more name. -/
def join (p : Path) (name : String) : Path :=
  if p = "" ∨ p.endsWith "/" then p ++ name else p ++ "/" ++ name

end Path

end Formicary
