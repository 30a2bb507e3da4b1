/-!
# Blank characters, words and comments

Program listings separate their words by any character with the Unicode property `White_Space`.
This module has the property itself, the words of a line, and the two ways a line is cut before it
is read: at its first comment mark, and at both ends.
-/

namespace Formicary.Text

/-- Characters with the Unicode property `White_Space`. -/
def isBlank (c : Char) : Bool :=
  let n := c.toNat
  (0x09 ≤ n && n ≤ 0x0D) || n == 0x20 || n == 0x85 || n == 0xA0 || n == 0x1680 ||
    (0x2000 ≤ n && n ≤ 0x200A) || n == 0x2028 || n == 0x2029 || n == 0x202F || n == 0x205F ||
    n == 0x3000

/-- What remains without the blanks at the front. -/
def trimStart (cs : List Char) : List Char :=
  cs.dropWhile isBlank

/-- What remains without the blanks at either end. -/
def trim (cs : List Char) : List Char :=
  (trimStart (trimStart cs).reverse).reverse

/-- The stretches between gaps, empty ones included. -/
def stretches (isGap : Char → Bool) : List Char → List (List Char)
  | [] => [[]]
  | c :: cs =>
    if isGap c then
      [] :: stretches isGap cs
    else
      match stretches isGap cs with
      | [] => [[c]]
      | w :: ws => (c :: w) :: ws

/-- The words of a line: its longest blank-free stretches, in order. -/
def words (cs : List Char) : List (List Char) :=
  (stretches isBlank cs).filter fun w => !w.isEmpty

/-- The text up to the first blank, and what follows from that blank on. -/
def splitFirst (cs : List Char) : List Char × List Char :=
  cs.span fun c => !isBlank c

/-- The text before the first comment mark `#`. -/
def beforeComment (cs : List Char) : List Char :=
  cs.takeWhile (· != '#')

end Formicary.Text
