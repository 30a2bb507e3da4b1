import Formicary.Text.Numeral

/-!
# Decimal numbers

A decimal number is a whole number of units of some power of ten. Texts write it with an optional
fraction and an optional exponent; how much may be left out differs from format to format, so the
pieces are read first and judged after.
-/

namespace Formicary

open Text

/-- The number `digits * 10 ^ exponent`, or its negative. Zero has a sign too. -/
structure Decimal where
  negative : Bool
  digits : Nat
  exponent : Int
  deriving DecidableEq

/-- The pieces of a decimal number as it is written. -/
structure DecimalText where
  sign : Option Char
  whole : List Char
  /-- The digits after the point, if there is a point. -/
  fraction : Option (List Char)
  /-- The sign and the digits after the exponent mark, if there is one. -/
  exponent : Option (Option Char × List Char)
  /-- What follows the number. -/
  rest : List Char

/-- Takes a sign from the front of a text. -/
def takeSign : List Char → Option Char × List Char
  | '+' :: cs => (some '+', cs)
  | '-' :: cs => (some '-', cs)
  | cs => (none, cs)

namespace DecimalText

/-- Splits a text into the pieces of a number and what follows it. -/
def read (cs : List Char) : DecimalText :=
  let (sign, cs) := takeSign cs
  let (whole, cs) := cs.span Char.isDigit
  let (fraction, cs) :=
    match cs with
    | '.' :: cs => let (digits, cs) := cs.span Char.isDigit; (some digits, cs)
    | cs => (none, cs)
  let (exponent, cs) :=
    match cs with
    | 'e' :: cs | 'E' :: cs =>
      let (sign, cs) := takeSign cs
      let (digits, cs) := cs.span Char.isDigit
      (some (sign, digits), cs)
    | cs => (none, cs)
  ⟨sign, whole, fraction, exponent, cs⟩

/-- The number that the pieces make. -/
def value (t : DecimalText) : Decimal :=
  let fraction := t.fraction.getD []
  let number digits := ((appendDigits? 10 0 digits).getD 0 : Nat)
  let power : Int :=
    match t.exponent with
    | some (some '-', digits) => -(number digits : Int)
    | some (_, digits) => number digits
    | none => 0
  ⟨t.sign = some '-', number (t.whole ++ fraction), power - fraction.length⟩

/-- An exponent mark asks for at least one digit. -/
def exponentComplete (t : DecimalText) : Bool :=
  match t.exponent with
  | some (_, digits) => !digits.isEmpty
  | none => true

end DecimalText

end Formicary
