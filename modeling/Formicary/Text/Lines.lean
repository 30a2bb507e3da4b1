import Formicary.Text.Blank

/-!
# Lines of a text

A line ends with a line feed, and a carriage return directly before that line feed belongs to the
ending. A text that ends with a line feed has no empty line after it.
-/

namespace Formicary.Text

/-- The text without one final carriage return. -/
def dropReturn (cs : List Char) : List Char :=
  if cs.getLast? = some '\r' then cs.dropLast else cs

/-- Ends each line; what stands after the last line feed is a line only if it is not empty, and
keeps its carriage return. -/
def closeLines : List (List Char) → List (List Char)
  | [] => []
  | [last] => if last.isEmpty then [] else [last]
  | l :: ls => dropReturn l :: closeLines ls

/-- The lines of a text, without their endings. -/
def lines (text : String) : List String :=
  (closeLines (stretches (· == '\n') text.toList)).map String.ofList

end Formicary.Text
