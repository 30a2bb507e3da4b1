import Formicary.Text.Numeral

/-!
# Operands

What an instruction can name: one of two registers, a constant, a step of the program, a scent
channel, a priority. The shape of an instruction says which of these it takes.
-/

namespace Formicary

/-- The two general registers. -/
inductive Reg where
  | a
  | b
  deriving DecidableEq, Repr

namespace Reg

/-- The operand bit that selects a register. -/
def bit : Reg → UInt8
  | a => 0
  | b => 1

/-- The register that the lowest of some operand bits selects. -/
def ofBit (bits : UInt8) : Reg :=
  if bits &&& 1 = 0 then a else b

/-- The letter of a register. -/
def name : Reg → String
  | a => "A"
  | b => "B"

/-- A register by its letter, in either case. -/
def read? : List Char → Option Reg
  | ['A'] | ['a'] => some a
  | ['B'] | ['b'] => some b
  | _ => none

end Reg

/-- The eight kinds of scent a tile can carry. -/
abbrev Channel := Fin 8

namespace Channel

/-- The channel that the lowest three of some bits select. -/
def ofBits (bits : UInt8) : Channel :=
  Fin.ofNat 8 bits.toNat

/-- The operand bits that select a channel. -/
def bits (c : Channel) : UInt8 :=
  c.val.toUInt8

/-- The letter of a channel, from `A` to `H`. -/
def letter (c : Channel) : Char :=
  Char.ofNat (0x41 + c.val)

/-- A channel by its letter, in either case. -/
def read? : List Char → Option Channel
  | [c] =>
    let n := c.toNat
    if 0x41 ≤ n && n ≤ 0x48 then some (Fin.ofNat 8 (n - 0x41))
    else if 0x61 ≤ n && n ≤ 0x68 then some (Fin.ofNat 8 (n - 0x61))
    else none
  | _ => none

end Channel

/-- Which operands an instruction takes. -/
inductive Shape where
  | bare
  | register
  | registerConstant
  | registerPair
  | target
  | channel
  | channelPriority
  deriving DecidableEq, Repr

namespace Shape

/-- How many bytes an instruction of this shape takes, its header included. -/
def width : Shape → Nat
  | bare | register | registerPair | channel => 1
  | channelPriority => 2
  | target => 3
  | registerConstant => 5

/-- The operands as they are written after a mnemonic. -/
def usage : Shape → String
  | bare => ""
  | register => "<register>"
  | registerConstant => "<register> <constant>"
  | registerPair => "<src> <dst>"
  | target => "<label|index>"
  | channel => "<channel>"
  | channelPriority => "<channel> <priority>"

end Shape

/-- The operand values of an instruction of a given shape. -/
inductive Operands : Shape → Type where
  | bare : Operands .bare
  | register (r : Reg) : Operands .register
  | registerConstant (r : Reg) (value : UInt32) : Operands .registerConstant
  | registerPair (source destination : Reg) : Operands .registerPair
  | target (step : UInt16) : Operands .target
  | channel (c : Channel) : Operands .channel
  | channelPriority (c : Channel) (priority : Int8) : Operands .channelPriority
  deriving DecidableEq

end Formicary
