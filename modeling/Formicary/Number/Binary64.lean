import Formicary.Number.Decimal

/-!
# Binary numbers of double precision

A finite number is a mantissa of at most 53 bits times a power of two. A decimal number is replaced
by the nearest one, and by the one with an even mantissa when two are equally near.
-/

namespace Formicary

open Text

/-- A number in the double precision format. -/
inductive Binary64 where
  /-- The number `mantissa * 2 ^ exponent`, or its negative. -/
  | finite (negative : Bool) (mantissa : Nat) (exponent : Int)
  | infinite (negative : Bool)
  | notANumber
  deriving DecidableEq

namespace Binary64

/-- The quotient rounded to the nearest whole number, halves to the even one. -/
def roundDiv (n d : Nat) : Nat :=
  let quotient := n / d
  let twice := 2 * (n % d)
  if twice < d || (twice = d && quotient % 2 = 0) then quotient else quotient + 1

/-- The mantissa for a power of two: `n / d / 2 ^ exponent`, rounded. -/
def mantissaAt (n d : Nat) (exponent : Int) : Nat :=
  if 0 ≤ exponent then roundDiv n (d * Nat.pow 2 exponent.toNat)
  else roundDiv (n * Nat.pow 2 (-exponent).toNat) d

/-- The power of two at which the positive quotient `n / d` has a mantissa of 53 bits, or the least
power of the format. -/
def exponentOf (n d : Nat) : Int :=
  let guess : Int := (n.log2 : Int) - d.log2 - 53
  let exponent := if mantissaAt n d guess < Nat.pow 2 53 then guess else guess + 1
  if exponent < -1074 then -1074 else exponent

/-- The number nearest to a decimal number. -/
def ofDecimal (x : Decimal) : Binary64 :=
  if x.digits = 0 then
    .finite x.negative 0 0
  else
    -- Outside these powers of ten the answer does not depend on the digits.
    let magnitude : Int := x.exponent + (x.digits.log2 : Int) * 3 / 10
    if magnitude < -400 then .finite x.negative 0 0
    else if 400 < magnitude then .infinite x.negative
    else
      let n := if 0 ≤ x.exponent then x.digits * Nat.pow 10 x.exponent.toNat else x.digits
      let d := if 0 ≤ x.exponent then 1 else Nat.pow 10 (-x.exponent).toNat
      let exponent := exponentOf n d
      let mantissa := mantissaAt n d exponent
      if Nat.pow 2 1024 ≤ mantissa * Nat.pow 2 exponent.toNat then .infinite x.negative
      else .finite x.negative mantissa exponent

/-- Whether a number is neither infinite nor undefined. -/
def isFinite : Binary64 → Bool
  | finite .. => true
  | _ => false

/-- Reads a number: digits with an optional fraction and exponent, or a name for an infinite or an
undefined one in any mixture of cases. -/
def read? (cs : List Char) : Option Binary64 :=
  let (sign, name) := takeSign cs
  let name := String.ofList (name.map Char.toLower)
  if name = "inf" ∨ name = "infinity" then
    some (.infinite (sign = some '-'))
  else if name = "nan" then
    some .notANumber
  else
    let text := DecimalText.read cs
    let digits := text.whole.length + (text.fraction.getD []).length
    if 0 < digits && text.exponentComplete && text.rest.isEmpty then some (ofDecimal text.value)
    else none

end Binary64

end Formicary
