import Formicary.Instruction.Encoding

/-!
# Reading machine code

Machine code is a byte string without separators: each instruction starts where the one before it
ends. Reading stops at the first header with no operation and at an instruction that the end of the
bytes cuts off.
-/

namespace Formicary

/-- Why machine code cannot be run or listed. -/
inductive CodeError where
  /-- A header names no operation. -/
  | unknownOpcode (offset : Nat) (code : UInt8)
  /-- An instruction runs past the last byte. -/
  | truncated (offset : Nat) (op : Op) (available : Nat)
  /-- A label names a step after the end. -/
  | labelOutOfRange (name : String) (step length : Nat)
  deriving DecidableEq

/-- What is wrong with the code. -/
def CodeError.message : CodeError → String
  | unknownOpcode offset code => s!"Unknown opcode {code.toNat} at byte {offset}"
  | truncated offset op available =>
    s!"Truncated {op.mnemonic} at byte {offset}: " ++
      s!"needs {op.shape.width} bytes, {available} available"
  | labelOutOfRange name step length =>
    s!"Label '{name}' points at step {step} but the program has {length} steps"

/-- An instruction found in machine code: where it starts and which bytes it has. -/
structure Located where
  offset : Nat
  instruction : Instruction
  bytes : List UInt8
  deriving DecidableEq

/-- The instructions found in machine code, and what ended the search before the last byte. -/
structure Decoding where
  located : List Located
  error : Option CodeError
  deriving DecidableEq

/-- Reads the instruction with a given header and gives it with the bytes after it. -/
def readInstruction (offset : Nat) (header : UInt8) (bytes : List UInt8) :
    Except CodeError (Located × List UInt8) :=
  match Op.ofCode? (headerCode header) with
  | none => .error (.unknownOpcode offset (headerCode header))
  | some op =>
    match Operands.read? op.shape header bytes with
    | none => .error (.truncated offset op (bytes.length + 1))
    | some (operands, taken, rest) => .ok (⟨offset, ⟨op, operands⟩, header :: taken⟩, rest)

/-- Reading an instruction splits off its bytes. -/
theorem append_of_readInstruction {offset : Nat} {header : UInt8} {bytes rest : List UInt8}
    {item : Located} (h : readInstruction offset header bytes = .ok (item, rest)) :
    item.bytes ++ rest = header :: bytes := by
  unfold readInstruction at h
  split at h
  · cases h
  · split at h
    · cases h
    · next read =>
      cases h
      simp [Operands.append_of_read? read]

/-- Fewer bytes are left after an instruction than with it. -/
theorem length_lt_of_readInstruction {offset : Nat} {header : UInt8} {bytes rest : List UInt8}
    {item : Located} (h : readInstruction offset header bytes = .ok (item, rest)) :
    rest.length < (header :: bytes).length := by
  unfold readInstruction at h
  split at h
  · cases h
  · split at h
    · cases h
    · next read =>
      have split := congrArg List.length (Operands.append_of_read? read)
      cases h
      simp only [List.length_append] at split
      simp only [List.length_cons]
      omega

/-- Reads machine code that starts `offset` bytes into a longer one. -/
def decodeFrom (offset : Nat) : List UInt8 → Decoding
  | [] => ⟨[], none⟩
  | header :: bytes =>
    match _h : readInstruction offset header bytes with
    | .error error => ⟨[], some error⟩
    | .ok (item, rest) =>
      let later := decodeFrom (offset + item.bytes.length) rest
      ⟨item :: later.located, later.error⟩
termination_by code => code.length
decreasing_by exact length_lt_of_readInstruction _h

/-- Reads machine code from its first byte. -/
def decode (code : List UInt8) : Decoding :=
  decodeFrom 0 code

/-- All instructions found, if nothing ended the search. -/
def Decoding.result (d : Decoding) : Except CodeError (List Located) :=
  match d.error with
  | some error => .error error
  | none => .ok d.located

/-- The instructions of machine code that can be read to its end. -/
def instructions (code : List UInt8) : Except CodeError (List Instruction) :=
  (decode code).result.map (·.map Located.instruction)

end Formicary
