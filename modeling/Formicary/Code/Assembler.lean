import Formicary.Code.Assembly

/-!
# Assemblers

An assembler is kept for one program after the other. It works in place: it counts lines, collects
labels and adds bytes. A mistake stops it where it is, with the labels and bytes found so far, and
the next program starts afresh.
-/

namespace Formicary

open Text

/-- What an assembler has before it. -/
structure Assembler where
  /-- The number of the line at hand. -/
  line : Nat
  labels : LabelTable
  code : Array UInt8

namespace Assembler

/-- An assembler that has not been used. -/
def new : Assembler := ⟨0, LabelTable.empty, #[]⟩

/-- Work of an assembler, which a mistake may stop half way. -/
abbrev Work (α : Type) : Type :=
  EStateM AssemblyError Assembler α

/-- Stops at a mistake in the line at hand. -/
def stop {α : Type} (mistake : Mistake) : Work α := fun a =>
  .error ⟨a.line, mistake⟩ a

/-- Goes to a line. -/
def goTo (line : Nat) : Work Unit :=
  modify fun a => { a with line }

/-- Declares a label for the step after `steps` others. -/
def declare (name : List Char) (steps : Nat) : Work Unit := do
  match declareLabel (← get).labels name steps with
  | .error mistake => stop mistake
  | .ok labels => modify fun a => { a with labels }

/-- The first reading: collects the labels of some lines and the steps with their lines, after some
steps were found. -/
def collect : (lines : List String) → (number : Nat) → Array (Nat × List Char) →
    Work (Array (Nat × List Char))
  | [], _, steps => return steps
  | line :: lines, number, steps => do
    goTo number
    match Statement.ofLine line with
    | .blank => collect lines (number + 1) steps
    | .label name =>
      declare name steps.size
      collect lines (number + 1) steps
    | .step text =>
      if maxSteps ≤ steps.size then stop .tooManySteps
      else collect lines (number + 1) (steps.push (number, text))

/-- Adds the bytes of a step. They are there already when a word behind the operands is found. -/
def emitStep (text : List Char) : Work Unit := do
  let (word, rest) := splitFirst text
  match Op.ofMnemonic? word with
  | none => stop (.unknownCommand (String.ofList word))
  | some op =>
    match takeOperands op (← get).labels (words rest) op.shape with
    | .error mistake => stop mistake
    | .ok (operands, left) =>
      modify fun a => { a with code := a.code ++ (Instruction.encode ⟨op, operands⟩).toArray }
      match left with
      | [] => return
      | extra :: _ => stop (.unexpectedOperand op (String.ofList extra))

/-- The second reading: adds the bytes of some steps. -/
def emit : List (Nat × List Char) → Work Unit
  | [] => return
  | (number, text) :: steps => do
    goTo number
    emitStep text
    emit steps

/-- Assembles a program and hands over its labels and bytes. -/
def assemble (lines : List String) : Work MachineCode := do
  set new
  let steps ← collect lines 1 #[]
  emit steps.toList
  let a ← get
  set { a with labels := LabelTable.empty, code := #[] }
  return ⟨a.code.toList, a.labels⟩

/-- What an assembler makes of a program, and the assembler after that. -/
def use (a : Assembler) (lines : List String) : Except AssemblyError MachineCode × Assembler :=
  match (assemble lines).run a with
  | .ok m a => (.ok m, a)
  | .error error a => (.error error, a)

end Assembler

end Formicary
