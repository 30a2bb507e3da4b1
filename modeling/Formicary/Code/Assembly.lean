import Formicary.Code.Source
import Formicary.Text.Lines

/-!
# From program text to machine code

The text is read twice. The first reading numbers the steps and collects the labels, so that the
second can use a label before the line that declares it. Any mistake rejects the whole program; a
mistake of the first reading is reported before one of the second.
-/

namespace Formicary

open Text

/-- A mistake and the number of its line, counted from one. -/
structure AssemblyError where
  line : Nat
  mistake : Mistake
  deriving DecidableEq

/-- What is wrong and where. -/
def AssemblyError.message (e : AssemblyError) : String :=
  s!"Line {e.line}: {e.mistake.message}"

/-- What a first reading of some lines has found: the labels, and the steps with their lines. -/
structure Survey where
  /-- How many lines were read. -/
  line : Nat
  labels : LabelTable
  steps : Array (Nat × List Char)

/-- Adds a label for the step after `steps` others. -/
def declareLabel (labels : LabelTable) (name : List Char) (steps : Nat) :
    Except Mistake LabelTable :=
  let text := String.ofList name
  if name.isEmpty then .error .emptyLabel
  else if name.any isBlank then .error (.labelNotOneWord text)
  else if (readUInt16? name).isSome then .error (.labelIsNumber text)
  else
    match labels.insert? text steps.toUInt16 with
    | none => .error (.labelTwice text)
    | some labels => .ok labels

namespace Survey

/-- Nothing read yet. -/
def start : Survey := ⟨0, LabelTable.empty, #[]⟩

/-- Reads one more line. -/
def read (s : Survey) (text : String) : Except AssemblyError Survey :=
  let line := s.line + 1
  match Statement.ofLine text with
  | .blank => .ok { s with line }
  | .label name =>
    match declareLabel s.labels name s.steps.size with
    | .error mistake => .error ⟨line, mistake⟩
    | .ok labels => .ok { s with line, labels }
  | .step text =>
    if maxSteps ≤ s.steps.size then .error ⟨line, .tooManySteps⟩
    else .ok { s with line, steps := s.steps.push (line, text) }

end Survey

/-- The labels and steps of some lines. -/
def survey (lines : List String) : Except AssemblyError Survey :=
  lines.foldlM Survey.read Survey.start

/-- The instructions of a surveyed program. -/
def Survey.instructions (s : Survey) : Except AssemblyError (List Instruction) :=
  s.steps.toList.mapM fun (line, text) =>
    (Instruction.ofText s.labels text).mapError fun mistake => ⟨line, mistake⟩

/-- The machine code of a program text given line by line. -/
def assemble (lines : List String) : Except AssemblyError MachineCode :=
  match survey lines with
  | .error error => .error error
  | .ok found =>
    found.instructions.map fun steps => ⟨steps.flatMap Instruction.encode, found.labels⟩

/-- The machine code of a whole program text. -/
def assembleText (text : String) : Except AssemblyError MachineCode :=
  assemble (lines text)

end Formicary
