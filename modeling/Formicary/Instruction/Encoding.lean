import Formicary.Bytes
import Formicary.Instruction.Op

/-!
# Instructions in bytes

An instruction starts with a header byte: five bits for the operation, three for a small operand.
Constants, targets and priorities follow in further bytes. Writing leaves the unused operand bits
clear; reading ignores them.
-/

namespace Formicary

namespace Operands

/-- The operand bits kept in the header. -/
def headerBits : {s : Shape} → Operands s → UInt8
  | _, .bare => 0
  | _, .register r => r.bit
  | _, .registerConstant r _ => r.bit
  | _, .registerPair source destination => (source.bit <<< 1) ||| destination.bit
  | _, .target _ => 0
  | _, .channel c => c.bits
  | _, .channelPriority c _ => c.bits

/-- The bytes that follow the header. -/
def trailing : {s : Shape} → Operands s → List UInt8
  | _, .registerConstant _ value => littleEndian 4 value.toNat
  | _, .target step => littleEndian 2 step.toNat
  | _, .channelPriority _ priority => [priority.toUInt8]
  | _, _ => []

/-- Reads the operands of a shape from a header and the bytes after it. Gives them with the bytes
they take after the header and the bytes left over, or nothing when the bytes run out. -/
def read? : (s : Shape) → UInt8 → List UInt8 → Option (Operands s × List UInt8 × List UInt8)
  | .bare, _, rest => some (.bare, [], rest)
  | .register, header, rest => some (.register (Reg.ofBit header), [], rest)
  | .registerConstant, header, b₀ :: b₁ :: b₂ :: b₃ :: rest =>
    let taken := [b₀, b₁, b₂, b₃]
    some (.registerConstant (Reg.ofBit header) (ofLittleEndian taken).toUInt32, taken, rest)
  | .registerPair, header, rest =>
    some (.registerPair (Reg.ofBit (header >>> 1)) (Reg.ofBit header), [], rest)
  | .target, _, b₀ :: b₁ :: rest =>
    some (.target (ofLittleEndian [b₀, b₁]).toUInt16, [b₀, b₁], rest)
  | .channel, header, rest => some (.channel (Channel.ofBits header), [], rest)
  | .channelPriority, header, b :: rest =>
    some (.channelPriority (Channel.ofBits header) b.toInt8, [b], rest)
  | _, _, _ => none

/-- Reading takes a first part of the bytes and leaves the rest as it is. -/
theorem append_of_read? {s : Shape} {header : UInt8} {bytes taken rest : List UInt8}
    {operands : Operands s} (h : read? s header bytes = some (operands, taken, rest)) :
    taken ++ rest = bytes := by
  unfold read? at h
  split at h <;> simp_all only [Option.some.injEq, Prod.mk.injEq, reduceCtorEq] <;>
    obtain ⟨-, rfl, rfl⟩ := h <;> rfl

end Operands

namespace Instruction

/-- The bytes of an instruction. -/
def encode (i : Instruction) : List UInt8 :=
  makeHeader i.op.code i.operands.headerBits :: i.operands.trailing

end Instruction

end Formicary
