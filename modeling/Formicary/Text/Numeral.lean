/-!
# Whole numbers in text

Reading accepts ASCII digits with any number of leading zeros, after an optional sign. Nothing else
may stand in the word: no blanks, no separators, no empty digit string.
-/

namespace Formicary.Text

/-- The value of a digit in a base of at most sixteen, in either case. -/
def digitValue? (base : Nat) (c : Char) : Option Nat :=
  let n := c.toNat
  let value :=
    if 0x30 ≤ n && n ≤ 0x39 then some (n - 0x30)
    else if 0x41 ≤ n && n ≤ 0x46 then some (n - 0x41 + 10)
    else if 0x61 ≤ n && n ≤ 0x66 then some (n - 0x61 + 10)
    else none
  value.filter (· < base)

/-- Continues a numeral with further digits, the most significant first. -/
def appendDigits? (base : Nat) : Nat → List Char → Option Nat
  | value, [] => some value
  | value, c :: cs =>
    match digitValue? base c with
    | some d => appendDigits? base (value * base + d) cs
    | none => none

/-- A non-empty string of digits. -/
def readDigits? (base : Nat) : List Char → Option Nat
  | [] => none
  | cs => appendDigits? base 0 cs

/-- Digits after an optional plus sign. -/
def readNat? (base : Nat) : List Char → Option Nat
  | '+' :: cs => readDigits? base cs
  | cs => readDigits? base cs

/-- Decimal digits after an optional sign of either kind. -/
def readInt? : List Char → Option Int
  | '-' :: cs => (readDigits? 10 cs).map fun n => -(n : Int)
  | cs => (readNat? 10 cs).map fun n => (n : Int)

/-- A whole number below `bound`. -/
def readBelow? (bound : Nat) (cs : List Char) : Option Nat :=
  (readNat? 10 cs).filter (· < bound)

/-- A number between `low` and `high`, both included. -/
def readBetween? (low high : Int) (cs : List Char) : Option Int :=
  (readInt? cs).filter fun n => low ≤ n && n ≤ high

/-- A number that fits sixteen bits. -/
def readUInt16? (cs : List Char) : Option UInt16 :=
  (readBelow? UInt16.size cs).map Nat.toUInt16

/-- The digits of a number in a base of at most sixteen, with lower-case letters, padded with zeros
to at least `width` places. -/
def padDigits (base width n : Nat) : List Char :=
  let digits := Nat.toDigits base n
  List.replicate (width - digits.length) '0' ++ digits

/-- Text set flush right in a field of at least `width` characters. -/
def alignRight (width : Nat) (text : String) : String :=
  String.ofList (List.replicate (width - text.length) ' ') ++ text

end Formicary.Text
