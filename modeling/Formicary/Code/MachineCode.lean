import Formicary.Code.Decoding
import Formicary.Code.Labels

/-!
# Machine code

A program as it is stored: its instructions in bytes, and its labels. A program that runs is the
array of its steps, one for each instruction.
-/

namespace Formicary

/-- Instructions in bytes, with the labels of their steps. -/
structure MachineCode where
  code : List UInt8
  labels : LabelTable
  deriving DecidableEq

/-- Steps ready to run. -/
abbrev Program := Array Instruction

namespace MachineCode

/-- No instructions and no labels. -/
def empty : MachineCode := ⟨[], LabelTable.empty⟩

instance : Inhabited MachineCode := ⟨empty⟩

/-- Whether there is no instruction to run. -/
def isEmpty (m : MachineCode) : Bool :=
  m.code.isEmpty

/-- The steps of the program. -/
def compile (m : MachineCode) : Except CodeError Program :=
  (instructions m.code).map List.toArray

/-- How many steps the program has. -/
def stepCount (m : MachineCode) : Except CodeError Nat :=
  (instructions m.code).map List.length

end MachineCode

end Formicary
