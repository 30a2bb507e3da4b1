import Formicary.Code.MachineCode
import Formicary.Text.Blank

/-!
# Program text

A line of program text is blank, declares a label, or holds one instruction: a mnemonic and its
operands. Comments run from `#` to the end of the line. Mnemonics, registers and channels may be
written in either case; labels may not.
-/

namespace Formicary

open Text

/-- What a line of program text says. -/
inductive Statement where
  | blank
  /-- Declares a label at the next step. -/
  | label (name : List Char)
  /-- Holds the instruction of a step. -/
  | step (text : List Char)
  deriving DecidableEq

/-- Reads a line: without its comment and outer blanks, a final colon makes it a label. -/
def Statement.ofLine (line : String) : Statement :=
  let text := trim (beforeComment line.toList)
  match text.getLast? with
  | none => .blank
  | some last => if last = ':' then .label (trim text.dropLast) else .step text

/-- The kinds of words that follow a mnemonic. -/
inductive OperandKind where
  | register
  | constant
  | target
  | channel
  | priority
  deriving DecidableEq

/-- What a kind of operand is called. -/
def OperandKind.name : OperandKind → String
  | register => "register"
  | constant => "constant"
  | target => "jump target"
  | channel => "scent channel"
  | priority => "priority"

/-- What can be wrong with a line of program text. -/
inductive Mistake where
  | emptyLabel
  | labelNotOneWord (name : String)
  | labelIsNumber (name : String)
  | labelTwice (name : String)
  | tooManySteps
  | unknownCommand (word : String)
  | missingOperand (op : Op) (kind : OperandKind)
  | invalidOperand (kind : OperandKind) (word : String)
  | unexpectedOperand (op : Op) (word : String)
  deriving DecidableEq

/-- How many steps a program may have: as many as targets can number, less one. -/
def maxSteps : Nat := 65535

namespace Op

/-- Reminds of the operands an operation takes. -/
def hint (op : Op) : String :=
  if op.shape = .bare then s!"{op.mnemonic} takes no operands"
  else s!"usage: {op.mnemonic} {op.shape.usage}"

end Op

namespace Mistake

/-- Explains a mistake. -/
def message : Mistake → String
  | emptyLabel => "defined an empty label"
  | labelNotOneWord name => s!"label '{name}' must be a single word"
  | labelIsNumber name => s!"label '{name}' cannot be a number"
  | labelTwice name => s!"label '{name}' defined twice"
  | tooManySteps => s!"program has more than {maxSteps} instructions"
  | unknownCommand word => s!"'{word}' is not a valid command"
  | missingOperand op kind => s!"{op.mnemonic} is missing its {kind.name} ({op.hint})"
  | invalidOperand .register word => s!"'{word}' is not a register, expected A or B"
  | invalidOperand .constant word => s!"'{word}' is not a valid 32-bit constant"
  | invalidOperand .target word => s!"unknown label '{word}'"
  | invalidOperand .channel word => s!"'{word}' is not a scent channel, expected A-H"
  | invalidOperand .priority word => s!"'{word}' is not a valid priority (-128 to 127)"
  | unexpectedOperand op word => s!"unexpected operand '{word}' ({op.hint})"

end Mistake

/-- A constant: a decimal number that fits 32 bits with or without a sign, or `0x` and hexadecimal
digits. Negative numbers stand for their remainder modulo two to the 32. -/
def readConstant? : List Char → Option UInt32
  | '0' :: 'x' :: digits | '0' :: 'X' :: digits =>
    ((readNat? 16 digits).filter (· < UInt32.size)).map Nat.toUInt32
  | word =>
    (readBetween? (-0x80000000) 0xFFFFFFFF word).map fun n => (n % 0x100000000).toNat.toUInt32

/-- A priority from -128 to 127. -/
def readPriority? (word : List Char) : Option Int8 :=
  (readBetween? (-128) 127 word).map Int.toInt8

/-- A target: a step number, or else a label. -/
def readTarget? (labels : LabelTable) (word : List Char) : Option UInt16 :=
  match readUInt16? word with
  | some step => some step
  | none => labels.stepOf? (String.ofList word)

/-- Takes the first of some words as an operand of a given kind. -/
def takeOperand {α : Type} (op : Op) (kind : OperandKind) (read? : List Char → Option α) :
    List (List Char) → Except Mistake (α × List (List Char))
  | [] => .error (.missingOperand op kind)
  | word :: rest =>
    match read? word with
    | none => .error (.invalidOperand kind (String.ofList word))
    | some value => .ok (value, rest)

/-- Takes the operands of a shape from the front of some words. -/
def takeOperands (op : Op) (labels : LabelTable) (words : List (List Char)) :
    (s : Shape) → Except Mistake (Operands s × List (List Char))
  | .bare => .ok (.bare, words)
  | .register => do
    let (r, words) ← takeOperand op .register Reg.read? words
    return (.register r, words)
  | .registerConstant => do
    let (r, words) ← takeOperand op .register Reg.read? words
    let (value, words) ← takeOperand op .constant readConstant? words
    return (.registerConstant r value, words)
  | .registerPair => do
    let (source, words) ← takeOperand op .register Reg.read? words
    let (destination, words) ← takeOperand op .register Reg.read? words
    return (.registerPair source destination, words)
  | .target => do
    let (step, words) ← takeOperand op .target (readTarget? labels) words
    return (.target step, words)
  | .channel => do
    let (c, words) ← takeOperand op .channel Channel.read? words
    return (.channel c, words)
  | .channelPriority => do
    let (c, words) ← takeOperand op .channel Channel.read? words
    let (priority, words) ← takeOperand op .priority readPriority? words
    return (.channelPriority c priority, words)

/-- The instruction that a line of program text holds. -/
def Instruction.ofText (labels : LabelTable) (text : List Char) : Except Mistake Instruction :=
  let (word, rest) := splitFirst text
  match Op.ofMnemonic? word with
  | none => .error (.unknownCommand (String.ofList word))
  | some op => do
    let (operands, left) ← takeOperands op labels (words rest) op.shape
    match left with
    | [] => return ⟨op, operands⟩
    | extra :: _ => throw (.unexpectedOperand op (String.ofList extra))

end Formicary
